import Calaos.Parts
/-!
# Outputs are independent of each other and of hash order

Since a turn of the controller changes its parts one by one, and the coils outside them not at all, two states
with the same parts that come from the same coils have the same coils, values and tasks (`same_of_parts`).

The clock is part of the world, and every write takes time, so that two commands in a row never see the same
instant. What a fixed clock is must be said apart (`HandledAt`): for each command the world is set up anew, with
any clock and any history of requests but with the coils it has, in such a way that a task is made at the given
instant. Every turn of a run is handled at some instant in this sense.
-/
namespace Calaos.Wago

open Eff Runs

/-- The same coils, the same values and the same tasks. -/
structure Same (s s' : St) : Prop where
  coils : lit s.world.coils = lit s'.world.coils
  values : valueAt s.outputMap = valueAt s'.outputMap
  tasks : s.waitTask = s'.waitTask

/-- The command is handled at the instant `now`. -/
def HandledAt (now : Nat) (s : St) (d : IODataAction) (s' : St) : Prop :=
  ∃ env w, w.coils = s.world.coils ∧ step env { s with world := w } (.recv (some d)) = some s' ∧ MadeAt now s d s'

/-- The expiry branch is taken at the instant `now`. -/
def ExpiredAt (now : Nat) (s : St) (order : List String) (s' : St) : Prop :=
  ∃ env w, w.coils = s.world.coils ∧ clockAt env w = now ∧ step env { s with world := w } (.expiry order) = some s'

section
variable {m : OutputContextMap} {s s' t t' : St}

/-- A variable's coil belongs to an output or is none of the controller's. -/
theorem same_of_parts (hs : kindOf s.outputMap = kindOf m) (hs' : kindOf s'.outputMap = kindOf m)
    (hp : s.part = s'.part) {c : Coils} (hc : Outside m c s.world.coils) (hc' : Outside m c s'.world.coils) :
    Same s s' := by
  refine ⟨?_, ?_, ?_⟩
  · funext var
    by_cases hin : ∃ id, coilAddr var ∈ coilsAt m id
    · obtain ⟨id, ha⟩ := hin
      have hcoils := congrArg Part.coils (congrFun hp id)
      have hat : coilsAt s.outputMap id = coilsAt m id := by rw [coilsAt, coilsAt, hs]
      have hat' : coilsAt s'.outputMap id = coilsAt m id := by rw [coilsAt, coilsAt, hs']
      simp only [St.part, hat, hat', List.map_inj_left] at hcoils
      rw [← lit_coilAddr, ← lit_coilAddr s'.world.coils]
      exact hcoils _ ha
    · have hout : ∀ id, coilAddr var ∉ coilsAt m id := fun id ha => hin ⟨id, ha⟩
      rw [hc var hout, hc' var hout]
  · funext id
    exact congrArg Part.value (congrFun hp id)
  · exact Finmap.ext_lookup fun id => congrArg Part.task (congrFun hp id)

/-- The part of a state does not look at the clock. -/
theorem part_world {w : World} (h : w.coils = s.world.coils) : ({ s with world := w } : St).part = s.part := by
  funext x
  ext1 <;> simp only [St.part, h]

theorem HandledAt.parts {now : Nat} {d : IODataAction} (hd : DistinctCoils m) (hs : kindOf s.outputMap = kindOf m)
    (h : HandledAt now s d s') :
    s'.part = Function.update s.part d.id ((outcome s.outputMap d).apply now (s.part d.id)) ∧
    OnlyAt (coilsAt m d.id) s.world.coils s'.world.coils ∧ kindOf s'.outputMap = kindOf m := by
  obtain ⟨env, w, hw, hstep, hmade⟩ := h
  have he : CmdEffect { s with world := w } d.id (outcome s.outputMap d) s' := (step_spec hstep).2
  obtain ⟨hparts, honly⟩ := command_parts (s := { s with world := w }) hd hs he hmade
  rw [part_world hw] at hparts
  rw [← hw]
  exact ⟨hparts, honly, (CmdEffect.kindOf he).trans hs⟩

/-- Two commands for different outputs do not see each other. -/
theorem HandledAt.comm {now : Nat} {d₁ d₂ : IODataAction} {s₁ s₂ s₁₂ s₂₁ : St} (hd : DistinctCoils m)
    (hs : kindOf s.outputMap = kindOf m) (hne : d₁.id ≠ d₂.id) (h₁ : HandledAt now s d₁ s₁)
    (h₁₂ : HandledAt now s₁ d₂ s₁₂) (h₂ : HandledAt now s d₂ s₂) (h₂₁ : HandledAt now s₂ d₁ s₂₁) :
    Same s₁₂ s₂₁ := by
  obtain ⟨p₁, c₁, k₁⟩ := h₁.parts hd hs
  obtain ⟨p₂, c₂, k₂⟩ := h₂.parts hd hs
  obtain ⟨p₁₂, c₁₂, k₁₂⟩ := h₁₂.parts hd k₁
  obtain ⟨p₂₁, c₂₁, k₂₁⟩ := h₂₁.parts hd k₂
  have e₂ : s₁.part d₂.id = s.part d₂.id := by rw [p₁, Function.update_of_ne hne.symm]
  have e₁ : s₂.part d₁.id = s.part d₁.id := by rw [p₂, Function.update_of_ne hne]
  have o₂ : outcome s₁.outputMap d₂ = outcome s.outputMap d₂ :=
    outcome_congr (by rw [k₁, hs]) (congrArg Part.value e₂)
  have o₁ : outcome s₂.outputMap d₁ = outcome s.outputMap d₁ :=
    outcome_congr (by rw [k₂, hs]) (congrArg Part.value e₁)
  refine same_of_parts k₁₂ k₂₁ ?_ (c₁.outside.trans c₁₂.outside) (c₂.outside.trans c₂₁.outside)
  rw [p₁₂, p₂₁, o₁, o₂, e₁, e₂, p₁, p₂]
  exact Function.update_comm hne _ _ _

theorem ExpiredAt.parts {now : Nat} {order : List String} (hd : DistinctCoils m) (hs : kindOf s.outputMap = kindOf m)
    (h : ExpiredAt now s order s') :
    (∀ x, s'.part x = (s.part x).expire (kindOf m x) now) ∧ Outside m s.world.coils s'.world.coils ∧
    kindOf s'.outputMap = kindOf m := by
  obtain ⟨env, w, hw, rfl, hstep⟩ := h
  obtain ⟨hen, hi⟩ := step_eq_some.1 hstep
  obtain ⟨hparts, hout⟩ := onExpiry_parts (s := { s with world := w }) hd hs hen.2.2 hi
  rw [part_world hw] at hparts
  refine ⟨hparts, by rw [← hw]; exact hout, ?_⟩
  exact (Effect.kindOf (step_spec hstep).2).trans hs

end

/-- What independence means for the state `s` of a controller of the outputs `m` that was started in `w`. -/
structure Independent (env : Env) (w : World) (m : OutputContextMap) (s : St) : Prop where
  /-- Every command is handled at an instant of its turn. -/
  handled : ∀ d s', step env s (.recv (some d)) = some s' →
    ∃ now, s.world.now ≤ now ∧ now ≤ s'.world.now ∧ HandledAt now s d s'
  commute : ∀ now d₁ d₂ s₁ s₂ s₁₂ s₂₁, d₁.id ≠ d₂.id → HandledAt now s d₁ s₁ → HandledAt now s₁ d₂ s₁₂ →
    HandledAt now s d₂ s₂ → HandledAt now s₂ d₁ s₂₁ → Same s₁₂ s₂₁
  /-- A command changes no coil, value or task of another output. -/
  frame : ∀ d s', step env s (.recv (some d)) = some s' → ∀ id, id ≠ d.id →
    (∀ var, coilAddr var ∈ coilsAt m id → lit s'.world.coils var = lit s.world.coils var) ∧
    valueAt s'.outputMap id = valueAt s.outputMap id ∧ s'.waitTask.lookup id = s.waitTask.lookup id
  expiry : ∀ now order order' s' s'', ExpiredAt now s order s' → ExpiredAt now s order' s'' → Same s' s''
  /-- What the PLC answers in the first loop must not depend on the order either. -/
  startup : ∀ env₁ env₂ order order' plc s' s'', Local plc → HMap.Enumerates order m → HMap.Enumerates order' m →
    AllRead plc env₁ order (init w m) → AllRead plc env₂ order' (init w m) →
    startup env₁ order (init w m) = .ok () s' → startup env₂ order' (init w m) = .ok () s'' → Same s' s''

/-- **Outputs are independent of each other and of hash order.** -/
theorem outputs_independent {m : OutputContextMap} {env : Env} {w : World} {s₀ s : St} {ls : List Label}
    (hd : DistinctCoils m) (h₀ : Started env w m s₀) (hr : run (step env) s₀ ls = some s) :
    Independent env w m s := by
  have hs : kindOf s.outputMap = kindOf m := run_kinds h₀ hr
  refine ⟨?_, ?_, ?_, ?_, ?_⟩
  · intro d s' hstep
    obtain ⟨now, hn, hn', hmade⟩ := onCommand_madeAt (step_eq_some.1 hstep).2
    exact ⟨now, hn, hn', env, s.world, rfl, hstep, hmade⟩
  · intro now d₁ d₂ s₁ s₂ s₁₂ s₂₁ hne h₁ h₁₂ h₂ h₂₁
    exact h₁.comm hd hs hne h₁₂ h₂ h₂₁
  · intro d s' hstep id hne
    obtain ⟨now, _, _, hmade⟩ := onCommand_madeAt (step_eq_some.1 hstep).2
    obtain ⟨hparts, honly⟩ := command_parts hd hs (step_spec hstep).2 hmade
    have hid : s'.part id = s.part id := by rw [hparts, Function.update_of_ne hne]
    refine ⟨?_, congrArg Part.value hid, congrArg Part.task hid⟩
    intro var hvar
    exact honly var (hd.2 id d.id hne hvar)
  · intro now order order' s' s'' h h'
    obtain ⟨hparts, hout, hk⟩ := h.parts hd hs
    obtain ⟨hparts', hout', hk'⟩ := h'.parts hd hs
    exact same_of_parts hk hk' (funext fun x => (hparts x).trans (hparts' x).symm) hout hout'
  · intro env₁ env₂ order order' plc s' s'' hloc ho ho' hread hread' h h'
    obtain ⟨hparts, hout, hk⟩ := startup_parts hd hloc order _ rfl ho.1 hread h
    obtain ⟨hparts', hout', hk'⟩ := startup_parts hd hloc order' _ rfl ho'.1 hread' h'
    refine same_of_parts hk hk' (funext fun x => ?_) hout hout'
    rw [hparts, hparts']
    simp only [ho.2, ho'.2]

/-- The command to send a shutter up. -/
def sendUp (id : String) : IODataAction := ⟨id, .setValue (.shutter .up)⟩

/-- A world with these coils whose clock starts anew. -/
def anew (coils : Coils) : World := { idleWorld with coils := coils }

/-- The state after a command, from the state `s` with its world set up anew. -/
def afterAnew (s : St) (d : IODataAction) : St :=
  stateAfter (iteration (plcEnv 0 100) (.recv (some d)) { s with world := anew s.world.coils })

theorem handledAt_anew {now : Nat} {s : St} {d : IODataAction} (hc : s.closed = false)
    (h : succeeds (iteration (plcEnv 0 100) (.recv (some d)) { s with world := anew s.world.coils }) = true)
    (hmade : MadeAt now s d (afterAnew s d)) : HandledAt now s d (afterAnew s d) :=
  ⟨plcEnv 0 100, anew s.world.coils, rfl, step_stateAfter hc h, hmade⟩

/-- Both shutters are sent up, each at the instant 15 ms of a clock that starts anew. -/
theorem outputs_independent_three :
    HandledAt 15000000 threeStart (sendUp "blinds") (afterAnew threeStart (sendUp "blinds")) ∧
    HandledAt 15000000 (afterAnew threeStart (sendUp "blinds")) (sendUp "awning")
      (afterAnew (afterAnew threeStart (sendUp "blinds")) (sendUp "awning")) ∧
    Independent (plcEnv 0 100) idleWorld threeOutputs threeStart :=
  ⟨handledAt_anew (by decide +kernel) (by decide +kernel) (by decide +kernel),
    handledAt_anew (by decide +kernel) (by decide +kernel) (by decide +kernel),
    outputs_independent (by decide +kernel) three_started
      (show run (step (plcEnv 0 100)) threeStart [] = some threeStart from rfl)⟩

end Calaos.Wago
