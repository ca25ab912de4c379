/-!
# Runs of a labelled step function

A machine is a partial step function `σ → ℓ → Option σ`: the label carries everything the
environment chooses in one step (a message, a clock reading, an iteration order), and `none` means
that the label is not possible in that state. A run is a list of labels, each possible where it is
taken. Facts about all runs come from facts about one step through `run_invariant` and
`run_history` (`run_traced`, from the start), and a run of one label over and over comes from one step through
`run_replicate`. `Meets` says that every step of a run meets a condition; `run_meets` compares the runs that do with
those that do not.
-/
namespace Runs

variable {σ ℓ : Type} (step : σ → ℓ → Option σ)

/-- The state a run ends in. -/
def run : σ → List ℓ → Option σ
  | s, [] => some s
  | s, l :: ls => (step s l).bind fun s' => run s' ls

theorem run_cons {s s' : σ} {l : ℓ} {ls : List ℓ} :
    run step s (l :: ls) = some s' ↔ ∃ t, step s l = some t ∧ run step t ls = some s' := by
  simp [run, Option.bind_eq_some_iff]

/-- The states a run goes through, the first included. -/
def states : σ → List ℓ → List σ
  | s, [] => [s]
  | s, l :: ls =>
    s :: match step s l with
      | some s' => states s' ls
      | none => []

theorem states_cons {s s' : σ} {l : ℓ} (ls : List ℓ) (h : step s l = some s') :
    states step s (l :: ls) = s :: states step s' ls := by
  simp [states, h]

theorem run_append {s : σ} {ls ls' : List ℓ} :
    run step s (ls ++ ls') = (run step s ls).bind fun t => run step t ls' := by
  induction ls generalizing s with
  | nil => rfl
  | cons l ls ih =>
    simp only [List.cons_append, run, Option.bind_assoc]
    congr 1
    funext t
    exact ih

/-- A run by its last step. -/
theorem run_snoc {s s' : σ} {ls : List ℓ} {l : ℓ} :
    run step s (ls ++ [l]) = some s' ↔ ∃ t, run step s ls = some t ∧ step t l = some s' := by
  rw [run_append, Option.bind_eq_some_iff]
  simp [run]

/-- What every step keeps, every run keeps. -/
theorem run_invariant {I : σ → Prop} (hstep : ∀ s l s', I s → step s l = some s' → I s') :
    ∀ {ls : List ℓ} {s s' : σ}, I s → run step s ls = some s' → I s'
  | [], _, _, hi, h => by cases h; exact hi
  | _ :: _, _, _, hi, h => by
    obtain ⟨t, ht, hr⟩ := (run_cons step).1 h
    exact run_invariant hstep (hstep _ _ _ hi ht) hr

/-- The same for a relation between the labels taken so far and the state reached. -/
theorem run_history {I : List ℓ → σ → Prop}
    (hstep : ∀ past s l s', I past s → step s l = some s' → I (past ++ [l]) s') :
    ∀ {ls past : List ℓ} {s s' : σ}, I past s → run step s ls = some s' → I (past ++ ls) s'
  | [], _, _, _, hi, h => by cases h; simpa using hi
  | l :: ls, past, _, _, hi, h => by
    obtain ⟨t, ht, hr⟩ := (run_cons step).1 h
    have := run_history hstep (hstep past _ l _ hi ht) hr
    simpa using this

/-- From the start of a run. -/
theorem run_traced {I : List ℓ → σ → Prop} {ls : List ℓ} {s s' : σ}
    (hstep : ∀ past s l s', I past s → step s l = some s' → I (past ++ [l]) s') (hi : I [] s)
    (h : run step s ls = some s') : I ls s' :=
  run_history step hstep hi h

/-- What is possible as long as something is left of a count, is possible that many times. -/
theorem run_replicate {I : Nat → σ → Prop} {l : ℓ}
    (hstep : ∀ count s, I (count + 1) s → ∃ t, step s l = some t ∧ I count t) :
    ∀ {count : Nat} {s : σ}, I count s → ∃ t, run step s (List.replicate count l) = some t ∧ I 0 t
  | 0, s, hi => ⟨s, rfl, hi⟩
  | count + 1, s, hi => by
    obtain ⟨t, ht, hi⟩ := hstep count s hi
    obtain ⟨u, hr, hi⟩ := run_replicate hstep hi
    exact ⟨u, (run_cons step).2 ⟨t, ht, hr⟩, hi⟩

/-- Every step of the run meets the condition. -/
def Meets (C : σ → ℓ → Prop) : σ → List ℓ → Prop
  | _, [] => True
  | s, l :: ls => C s l ∧ ∀ s', step s l = some s' → Meets C s' ls

/-- What one step makes of a state and of whether the condition was met so far, a run does. -/
theorem run_meets {C : σ → ℓ → Prop} {I : Prop → σ → Prop}
    (hstep : ∀ met s l s', I met s → step s l = some s' → I (met ∧ C s l) s') :
    ∀ {ls : List ℓ} {met : Prop} {s s' : σ}, I met s → run step s ls = some s' → I (met ∧ Meets step C s ls) s'
  | [], met, _, _, hi, h => by
    cases h
    rw [Meets, and_true]
    exact hi
  | l :: ls, met, s, _, hi, h => by
    obtain ⟨t, ht, hr⟩ := (run_cons step).1 h
    have hrest : (∀ t', step s l = some t' → Meets step C t' ls) ↔ Meets step C t ls := by
      rw [ht]
      simp
    rw [Meets, hrest, ← and_assoc]
    exact run_meets hstep (hstep met s l t hi ht) hr

end Runs
