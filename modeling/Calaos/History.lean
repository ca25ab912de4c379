import Mathlib.Data.List.Induction
/-!
# Logs read backwards

A log is a list that only grows at its end. `latest p log` is its last entry with the property `p`,
and `Explained J log` says that every entry is justified by what came before it. Both follow the log as
it grows (`latest_append`, `Explained.append`), and both translate to positions (`latest_at`,
`Explained.at`). `along f` is what the entries give rise to, each with the entries before it in view.
-/
namespace History

variable {α : Type}

/-- The last entry of the log with the property. -/
def latest (p : α → Bool) (log : List α) : Option α := (log.filter p).getLast?

theorem latest_append (p : α → Bool) (log : List α) (e : α) :
    latest p (log ++ [e]) = if p e then some e else latest p log := by
  unfold latest
  by_cases h : p e = true <;> simp [List.filter_append, h]

theorem latest_eq_none_iff {p : α → Bool} {log : List α} : latest p log = none ↔ ∀ e ∈ log, p e = false := by
  simp [latest]

theorem mem_of_latest {p : α → Bool} {log : List α} {e : α} (h : latest p log = some e) : e ∈ log ∧ p e = true :=
  List.mem_filter.1 (List.mem_of_getLast? h)

/-- No later entry has the property. -/
theorem latest_at {p : α → Bool} {log : List α} {e : α} (h : latest p log = some e) :
    ∃ j : Nat, log[j]? = some e ∧ ∀ (k : Nat) e', j < k → log[k]? = some e' → p e' = false := by
  induction log using List.reverseRecOn with
  | nil => cases h
  | append_singleton log x ih =>
    rw [latest_append] at h
    split at h
    · cases h
      refine ⟨log.length, by simp, ?_⟩
      intro k e' hk he'
      rw [List.getElem?_eq_none (by simp; omega)] at he'
      cases he'
    · rename_i hx
      obtain ⟨j, hj, hlast⟩ := ih h
      have hlt : j < log.length := (List.getElem?_eq_some_iff.1 hj).1
      refine ⟨j, by rw [List.getElem?_append_left hlt]; exact hj, fun k e' hk he' => ?_⟩
      rcases Nat.lt_or_ge k log.length with hlk | hlk
      · rw [List.getElem?_append_left hlk] at he'
        exact hlast k e' hk he'
      · rw [List.getElem?_append_right hlk] at he'
        simp only [List.getElem?_singleton, Option.ite_none_right_eq_some, Option.some.injEq] at he'
        rw [← he'.2]
        simpa using hx

/-- No entry with the property comes after the latest. -/
theorem latest_of_getElem? {p : α → Bool} {log : List α} {i : Nat} {e : α} (hi : log[i]? = some e)
    (he : p e = true) : ∃ j e', i ≤ j ∧ log[j]? = some e' ∧ p e' = true ∧ latest p log = some e' := by
  have hmem : e ∈ log.filter p := List.mem_filter.2 ⟨List.mem_of_getElem? hi, he⟩
  obtain ⟨e', hlatest⟩ : ∃ e', latest p log = some e' :=
    Option.ne_none_iff_exists'.1 fun hn => by
      rw [latest, List.getLast?_eq_none_iff] at hn
      rw [hn] at hmem
      cases hmem
  obtain ⟨j, hj, hlast⟩ := latest_at hlatest
  refine ⟨j, e', ?_, hj, (List.mem_filter.1 (List.mem_of_getLast? hlatest)).2, hlatest⟩
  by_contra hlt
  have := hlast i e (by omega) hi
  rw [he] at this
  cases this

/-- The latest of a projection is the projection of the latest. -/
theorem latest_filterMap {β : Type} (f : α → Option β) (p : β → Bool) (log : List α) :
    latest p (log.filterMap f) = (latest (fun a => (f a).any p) log).bind f := by
  induction log using List.reverseRecOn with
  | nil => rfl
  | append_singleton log a ih =>
    rw [List.filterMap_append, latest_append]
    cases hf : f a with
    | none => simp [hf, ih]
    | some b =>
      simp only [List.filterMap_cons, hf, List.filterMap_nil, latest_append, Option.any_some]
      by_cases hp : p b = true
      · simp [hp, hf]
      · simp [hp, ih]

/-- Every entry is justified by the entries before it. -/
def Explained (J : List α → α → Prop) (log : List α) : Prop :=
  ∀ before e after, log = before ++ e :: after → J before e

variable {J : List α → α → Prop} {log : List α} {e : α}

theorem Explained.nil : Explained J [] := by
  intro before e after h
  simp at h

theorem Explained.append (h : Explained J log) (he : J log e) : Explained J (log ++ [e]) := by
  intro before x after hx
  induction after using List.reverseRecOn with
  | nil =>
    obtain ⟨hb, hxe⟩ := List.append_inj' hx rfl
    cases hb
    cases hxe
    exact he
  | append_singleton after y _ =>
    rw [← List.cons_append, ← List.append_assoc] at hx
    exact h before x after (List.append_inj' hx rfl).1

/-- Several entries at once, each justified by the log and the new entries before it. -/
theorem Explained.extend (h : Explained J log) {entries : List α}
    (he : ∀ before e after, entries = before ++ e :: after → J (log ++ before) e) : Explained J (log ++ entries) := by
  induction entries using List.reverseRecOn with
  | nil => rwa [List.append_nil]
  | append_singleton entries e ih =>
    rw [← List.append_assoc]
    refine (ih fun before x after hx => he before x (after ++ [e]) (by simp [hx])).append ?_
    exact he entries e [] rfl

theorem explained_append : Explained J (log ++ [e]) ↔ Explained J log ∧ J log e := by
  refine ⟨fun h => ⟨?_, h log e [] rfl⟩, fun h => h.1.append h.2⟩
  intro before x after hx
  exact h before x (after ++ [e]) (by simp [hx])

theorem Explained.at (h : Explained J log) {i : Nat} (hi : log[i]? = some e) : J (log.take i) e := by
  obtain ⟨hlt, rfl⟩ := List.getElem?_eq_some_iff.1 hi
  refine h _ _ (log.drop (i + 1)) ?_
  rw [← List.drop_eq_getElem_cons hlt, List.take_append_drop]

/-- The only entry with the property is the latest. -/
theorem latest_unique {p : α → Bool} (h : log.Pairwise fun a b => p a = true → p b = false) :
    latest p log = some e ↔ e ∈ log ∧ p e = true := by
  refine ⟨mem_of_latest, ?_⟩
  rintro ⟨he, hp⟩
  obtain ⟨i, hi⟩ := List.getElem?_of_mem he
  obtain ⟨j, e', hij, hj, hp', hlatest⟩ := latest_of_getElem? hi hp
  rcases Nat.eq_or_lt_of_le hij with rfl | hlt
  · rw [hlatest, ← hj, hi]
  · obtain ⟨hli, rfl⟩ := List.getElem?_eq_some_iff.1 hi
    obtain ⟨hlj, rfl⟩ := List.getElem?_eq_some_iff.1 hj
    have hn := List.pairwise_iff_getElem.1 h i j hli hlj hlt hp
    rw [hp'] at hn
    cases hn

/-! ## What the entries give rise to -/

section
variable {β : Type}

/-- What each entry gives rise to after the log so far, one after the other. -/
def along (f : List α → α → List β) : List α → List α → List β
  | _, [] => []
  | past, e :: es => f past e ++ along f (past ++ [e]) es

/-- Entries that give rise to nothing, and that the others do not look at, may be left out. -/
theorem along_filter {f g : List α → α → List β} {p : α → Bool}
    (hf : ∀ past e, p e = true → f past e = g (past.filter p) e) (hn : ∀ past e, p e = false → f past e = []) :
    ∀ past es, along f past es = along g (past.filter p) (es.filter p)
  | _, [] => rfl
  | past, e :: es => by
    have ih := along_filter hf hn (past ++ [e]) es
    by_cases h : p e = true
    · have hpast : (past ++ [e]).filter p = past.filter p ++ [e] := by simp [h]
      rw [along, hf past e h, ih, hpast, List.filter_cons_of_pos h]
      rfl
    · have hpast : (past ++ [e]).filter p = past.filter p := by simp [h]
      rw [along, hn past e (by simpa using h), ih, hpast, List.filter_cons_of_neg h]
      rfl

theorem along_eq_map {f : List α → α → List β} {g : α → β} (hf : ∀ past e, f past e = [g e]) :
    ∀ past es, along f past es = es.map g
  | _, [] => rfl
  | past, e :: es => by
    rw [along, hf, along_eq_map hf, List.map_cons]
    rfl

end

end History
