import Calaos.Runs
import Mathlib.Tactic.Choose
/-!
# Interleavings of machines

Several copies of one machine take their steps in turn, more of them may join, and now and then there is something
that all of them hear at once. `share` is what one of them sees of a run. The runs of the group are exactly the
interleavings of runs of its members (`run_many_iff`), so nothing that holds of one machine alone has to be proved
again for the group.
-/
namespace Interleaving

open Runs

/-- A step of a group. -/
inductive Label (α β : Type) where
  | join
  | own (i : Nat) (a : α)
  | all (b : β)

section
variable {σ α β : Type} (init : σ) (step : σ → α → Option σ) (hear : σ → β → σ)

/-- One member alone: a step of its own, or what all of them hear. -/
def one (s : σ) : α ⊕ β → Option σ
  | .inl a => step s a
  | .inr b => some (hear s b)

/-- All of them. -/
def many (ss : List σ) : Label α β → Option (List σ)
  | .join => some (ss ++ [init])
  | .own i a => ss[i]?.bind fun s => (step s a).map fun s' => ss.set i s'
  | .all b => some (ss.map fun s => hear s b)

/-- How many there are. -/
def grow (n : Nat) : Label α β → Option Nat
  | .join => some (n + 1)
  | .own i _ => if i < n then some n else none
  | .all _ => some n

/-- What the member `i` sees of a step of a group of `n`, -/
def sees (i n : Nat) : Label α β → List (α ⊕ β)
  | .join => []
  | .own j a => if j = i then [.inl a] else []
  | .all b => if i < n then [.inr b] else []

/-- and of a run. -/
def share (i : Nat) : Nat → List (Label α β) → List (α ⊕ β)
  | _, [] => []
  | n, l :: ls => sees i n l ++ share i ((grow n l).getD n) ls

end

section
variable {σ α β : Type} {init : σ} {step : σ → α → Option σ} {hear : σ → β → σ}

/-- Two groups of one size are the same if their members are. -/
theorem ext_getD {ss ts : List σ} (hlen : ss.length = ts.length) (h : ∀ i, ss.getD i init = ts.getD i init) :
    ss = ts := by
  refine List.ext_getElem? fun i => ?_
  have hi := h i
  by_cases hlt : i < ss.length
  · have hlt' : i < ts.length := by omega
    simp only [List.getD_eq_getElem?_getD, List.getElem?_eq_getElem hlt, List.getElem?_eq_getElem hlt',
      Option.getD_some] at hi
    rw [List.getElem?_eq_getElem hlt, List.getElem?_eq_getElem hlt', hi]
  · rw [List.getElem?_eq_none (by omega), List.getElem?_eq_none (by omega)]

/-- Nobody sees anything before he has joined. -/
theorem sees_of_le {i n m : Nat} {l : Label α β} (hg : grow n l = some m) (hi : n ≤ i) : sees i n l = [] := by
  cases l with
  | join => rfl
  | own j a =>
    obtain ⟨hj, _⟩ := Option.ite_none_right_eq_some.1 hg
    exact if_neg (by omega)
  | all b => exact if_neg (by omega)

theorem grow_le {n m : Nat} {l : Label α β} (hg : grow n l = some m) : n ≤ m := by
  cases l with
  | join =>
    cases hg
    omega
  | own j a =>
    obtain ⟨_, he⟩ := Option.ite_none_right_eq_some.1 hg
    cases he
    exact Nat.le_refl n
  | all b =>
    cases hg
    exact Nat.le_refl n

/-- Nobody leaves. -/
theorem run_grow_le {n m : Nat} {ls : List (Label α β)} (h : run grow n ls = some m) : n ≤ m :=
  run_invariant grow (I := fun k => n ≤ k) (fun _ _ _ hk hg => Nat.le_trans hk (grow_le hg)) (Nat.le_refl n) h

/-- A step of the group is one of each member. -/
theorem many_spec {ss ts : List σ} {l : Label α β} (h : many init step hear ss l = some ts) :
    grow ss.length l = some ts.length ∧
      ∀ i, run (one step hear) (ss.getD i init) (sees i ss.length l) = some (ts.getD i init) := by
  cases l with
  | join =>
    cases h
    refine ⟨by simp [grow], fun i => congrArg some ?_⟩
    rcases Nat.lt_trichotomy i ss.length with hi | rfl | hi
    · simp [List.getElem?_append_left hi]
    · simp
    · rw [List.getD_eq_getElem?_getD, List.getD_eq_getElem?_getD, List.getElem?_eq_none (by omega),
        List.getElem?_eq_none (by simp; omega)]
  | own j a =>
    obtain ⟨s, hs, h⟩ := Option.bind_eq_some_iff.1 h
    obtain ⟨s', hs', rfl⟩ := Option.map_eq_some_iff.1 h
    obtain ⟨hj, rfl⟩ := List.getElem?_eq_some_iff.1 hs
    refine ⟨by simp [grow, hj], fun i => ?_⟩
    by_cases hji : j = i
    · subst hji
      simp [sees, run, one, hs', hj]
    · simp [sees, hji, run, List.getElem?_set_ne hji]
  | all b =>
    cases h
    refine ⟨by simp [grow], fun i => ?_⟩
    by_cases hi : i < ss.length
    · simp [sees, hi, run, one]
    · simp [sees, hi, run]

/-- **One step**: the group takes it if each of its members can. -/
theorem many_iff {ss ts : List σ} {l : Label α β} : many init step hear ss l = some ts ↔
    grow ss.length l = some ts.length ∧
      ∀ i, run (one step hear) (ss.getD i init) (sees i ss.length l) = some (ts.getD i init) := by
  refine ⟨many_spec, ?_⟩
  rintro ⟨hg, h⟩
  have hcan : ∃ us, many init step hear ss l = some us := by
    cases l with
    | join => exact ⟨_, rfl⟩
    | all b => exact ⟨_, rfl⟩
    | own j a =>
      obtain ⟨hj, _⟩ := Option.ite_none_right_eq_some.1 hg
      have hstep := h j
      simp only [sees, if_true, run_cons, one] at hstep
      obtain ⟨s', hs', _⟩ := hstep
      rw [List.getD_eq_getElem?_getD, List.getElem?_eq_getElem hj, Option.getD_some] at hs'
      exact ⟨ss.set j s', by simp [many, hj, hs']⟩
  obtain ⟨us, hus⟩ := hcan
  obtain ⟨hg', h'⟩ := many_spec hus
  have hlen : us.length = ts.length := Option.some.inj (hg'.symm.trans hg)
  rw [hus, ext_getD hlen fun i => Option.some.inj ((h' i).symm.trans (h i))]

/-- **A run of the group is an interleaving** of one run of each member. -/
theorem run_many_iff {ls : List (Label α β)} {ss ts : List σ} : run (many init step hear) ss ls = some ts ↔
    run grow ss.length ls = some ts.length ∧
      ∀ i, run (one step hear) (ss.getD i init) (share i ss.length ls) = some (ts.getD i init) := by
  induction ls generalizing ss with
  | nil =>
    simp only [run, share, Option.some.injEq]
    constructor
    · rintro rfl
      exact ⟨rfl, fun _ => rfl⟩
    · rintro ⟨hlen, h⟩
      exact ext_getD hlen h
  | cons l ls ih =>
    constructor
    · intro h
      obtain ⟨us, hus, h⟩ := (run_cons _).1 h
      obtain ⟨hg, hone⟩ := many_iff.1 hus
      obtain ⟨hgrow, hrest⟩ := ih.1 h
      refine ⟨(run_cons _).2 ⟨_, hg, hgrow⟩, fun i => ?_⟩
      rw [share, run_append, hone, hg]
      exact hrest i
    · rintro ⟨hgrow, hrest⟩
      obtain ⟨m, hg, hgrow⟩ := (run_cons _).1 hgrow
      have hmid : ∀ i, ∃ u, run (one step hear) (ss.getD i init) (sees i ss.length l) = some u ∧
          run (one step hear) u (share i m ls) = some (ts.getD i init) := by
        intro i
        have h := hrest i
        rw [share, run_append, hg] at h
        exact Option.bind_eq_some_iff.1 h
      choose u hone hrest using hmid
      -- The state in between is put together from those of the members.
      have hu : ∀ i, u i = ((List.range m).map u).getD i init := by
        intro i
        by_cases hi : i < m
        · simp [hi]
        · have hout := hone i
          have hle := grow_le hg
          rw [sees_of_le hg (by omega), List.getD_eq_getElem?_getD, List.getElem?_eq_none (by omega)] at hout
          rw [List.getD_eq_getElem?_getD, List.getElem?_eq_none (by simp; omega)]
          exact (Option.some.inj hout).symm
      have hlen : ((List.range m).map u).length = m := by simp
      refine (run_cons _).2 ⟨(List.range m).map u, many_iff.2 ⟨by rw [hlen]; exact hg, fun i => ?_⟩,
        ih.2 ⟨?_, fun i => ?_⟩⟩
      · rw [hone, hu]
      · rw [hlen]
        exact hgrow
      · rw [hlen, ← hu]
        exact hrest i

end

end Interleaving
