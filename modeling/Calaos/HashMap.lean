import Calaos.History
import Mathlib.Data.Finmap
/-!
# Hash maps with an arbitrary iteration order

A `HashMap` is a finite map whose iteration order is unspecified and may differ from one loop to the
next. The map itself is Mathlib's `Finmap`, which has no order at all; a loop over it takes the order
as an argument, any list that enumerates the keys (`Enumerates`).
-/

/-- `HashMap<K, V>`. -/
abbrev HMap (κ υ : Type) := Finmap fun _ : κ => υ

namespace HMap

variable {κ υ : Type} [DecidableEq κ]

/-- `HashMap::retain`. -/
def retain (p : κ → υ → Bool) (m : HMap κ υ) : HMap κ υ :=
  ⟨m.entries.filter fun e => p e.1 e.2, by
    obtain ⟨es, hes⟩ := m
    induction es using Quot.ind with
    | mk l => exact List.NodupKeys.sublist List.filter_sublist hes⟩

/-- Write through `get_mut`: change the value under a key that is present. -/
def modify (k : κ) (f : υ → υ) (m : HMap κ υ) : HMap κ υ :=
  match m.lookup k with
  | some v => m.insert k (f v)
  | none => m

theorem mem_lookup_retain {p : κ → υ → Bool} {m : HMap κ υ} {k : κ} {v : υ} :
    v ∈ (m.retain p).lookup k ↔ v ∈ m.lookup k ∧ p k v := by
  rw [Finmap.mem_lookup_iff, Finmap.mem_lookup_iff]
  simp [retain, Multiset.mem_filter]

theorem lookup_retain (p : κ → υ → Bool) (m : HMap κ υ) (k : κ) :
    (m.retain p).lookup k = (m.lookup k).filter (p k) := by
  ext v
  rw [Option.filter_eq_some_iff]
  exact mem_lookup_retain

theorem lookup_modify (k : κ) (f : υ → υ) (m : HMap κ υ) : (m.modify k f).lookup k = (m.lookup k).map f := by
  unfold modify
  cases h : m.lookup k with
  | some v => simp [Finmap.lookup_insert]
  | none => simp [h]

theorem lookup_modify_ne {k k' : κ} (f : υ → υ) (m : HMap κ υ) (h : k' ≠ k) :
    (m.modify k f).lookup k' = m.lookup k' := by
  unfold modify
  cases m.lookup k with
  | some v => exact Finmap.lookup_insert_of_ne m h
  | none => rfl

/-- One lemma for the reader who does not care which key was written. -/
theorem lookup_modify_eq (k k' : κ) (f : υ → υ) (m : HMap κ υ) :
    (m.modify k f).lookup k' = if k' = k then (m.lookup k).map f else m.lookup k' := by
  by_cases h : k' = k
  · subst h; simp [lookup_modify]
  · simp [h, lookup_modify_ne f m h]

@[simp] theorem mem_modify {k k' : κ} {f : υ → υ} {m : HMap κ υ} : k' ∈ m.modify k f ↔ k' ∈ m := by
  unfold modify
  cases h : m.lookup k with
  | some v =>
    have hk : k ∈ m := Finmap.mem_of_lookup_eq_some h
    rw [Finmap.mem_insert]
    exact ⟨fun hor => hor.elim (fun he => he ▸ hk) id, .inr⟩
  | none => rfl

/-- What is there after an insertion was there before, or is what was inserted. -/
theorem lookup_insert_cases {k k' : κ} {v v' : υ} {m : HMap κ υ} (h : (m.insert k v).lookup k' = some v') :
    k' = k ∨ m.lookup k' = some v' := by
  by_cases hne : k' = k
  · exact .inl hne
  · exact .inr (by rwa [Finmap.lookup_insert_of_ne _ hne] at h)

theorem lookup_of_erase {k k' : κ} {v : υ} {m : HMap κ υ} (h : (m.erase k).lookup k' = some v) :
    m.lookup k' = some v := by
  by_cases hne : k' = k
  · rw [hne, Finmap.lookup_erase] at h
    cases h
  · rwa [Finmap.lookup_erase_ne hne] at h

/-- A possible iteration order of `m`: every key once. -/
def Enumerates (ks : List κ) (m : HMap κ υ) : Prop := ks.Nodup ∧ ∀ k, k ∈ ks ↔ k ∈ m

instance (ks : List κ) (m : HMap κ υ) : Decidable (Enumerates ks m) :=
  decidable_of_iff (ks.Nodup ∧ ks.toFinset = m.keys) <| by
    simp [Enumerates, Finset.ext_iff, Finmap.mem_keys]

/-- A loop that inserts: the last entry of each key stays, or else what was there before. -/
theorem lookup_foldl_insert {α : Type} (key : α → κ) (value : α → υ) (as : List α) (m : HMap κ υ) (k : κ) :
    (as.foldl (fun m a => m.insert (key a) (value a)) m).lookup k =
      ((History.latest (fun a => decide (key a = k)) as).map value).or (m.lookup k) := by
  induction as using List.reverseRecOn with
  | nil => rfl
  | append_singleton as a ih =>
    rw [List.foldl_append, List.foldl_cons, List.foldl_nil, History.latest_append]
    by_cases h : key a = k
    · subst h
      simp [Finmap.lookup_insert]
    · rw [Finmap.lookup_insert_of_ne _ (Ne.symm h), ih]
      simp [h]

/-- A loop that takes over what it finds under each key. -/
theorem lookup_foldl_select {α : Type} (m : HMap κ α) (f : α → υ) (ks : List κ) (k : κ) :
    (ks.foldl (fun (res : HMap κ υ) k =>
      match m.lookup k with
      | some a => res.insert k (f a)
      | none => res) ∅).lookup k = if k ∈ ks then (m.lookup k).map f else none := by
  induction ks using List.reverseRecOn with
  | nil => simp
  | append_singleton ks k' ih =>
    rw [List.foldl_append, List.foldl_cons, List.foldl_nil]
    by_cases h : k = k'
    · subst h
      cases hl : m.lookup k with
      | some a => simp [Finmap.lookup_insert]
      | none =>
        rw [hl] at ih
        simp only [List.mem_append, List.mem_singleton, or_true, if_true, Option.map_none, ih]
        split <;> rfl
    · have hmem : k ∈ ks ++ [k'] ↔ k ∈ ks := by simp [h]
      simp only [hmem]
      cases m.lookup k' with
      | some a =>
        rw [Finmap.lookup_insert_of_ne _ h]
        exact ih
      | none => exact ih

end HMap
