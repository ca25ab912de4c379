import Calaos.Feedback
import Calaos.Parts
/-!
# One output along a run

A digital output is a boolean cell (`Cell`): it holds a value, commands set it or turn it over, and it tells its
value at the start and after each change. Its coil, the value the controller keeps and what was broadcast last
are three copies of the cell's value (`digital_cell`), whatever the other outputs and their timers do.

A shutter is less simple. All that asks for no movement goes through one branch, which was written for a shutter
that moves: it switches the motor off and takes the shutter to be up (`idle_shutter`).
-/
namespace Calaos.Wago

open Eff Runs Snapshot

/-! ## A digital output -/

/-- A boolean cell, with what it told so far. -/
structure Cell where
  value : Bool
  told : List Bool
deriving DecidableEq

def Cell.start (b : Bool) : Cell := ⟨b, [b]⟩

def Cell.set (c : Cell) (b : Bool) : Cell := ⟨b, c.told ++ [b]⟩

/-- Only a boolean and a toggle are for a cell. -/
def Cell.act (c : Cell) : IOAction → Cell
  | .setValue (.bool b) => c.set b
  | .toggle => c.set !c.value
  | _ => c

/-- The cell after the actions. -/
def Cell.after (b : Bool) (actions : List IOAction) : Cell := actions.foldl Cell.act (Cell.start b)

theorem Cell.after_append (b : Bool) (actions : List IOAction) (action : IOAction) :
    Cell.after b (actions ++ [action]) = (Cell.after b actions).act action := by
  simp [Cell.after]

/-- What was told last is the value. -/
theorem Cell.getLast_told (b : Bool) (actions : List IOAction) :
    (Cell.after b actions).told.getLast? = some (Cell.after b actions).value := by
  induction actions using List.reverseRecOn with
  | nil => rfl
  | append_singleton actions action ih =>
    rw [Cell.after_append]
    unfold Cell.act
    split
    · simp [Cell.set]
    · simp [Cell.set]
    · exact ih

/-- The actions of the commands for an output. -/
def actionsFor (id : String) (past : List Label) : List IOAction :=
  ((commands past).filter fun d => decide (d.id = id)).map (·.action)

theorem actionsFor_recv (id : String) (past : List Label) (d : IODataAction) :
    actionsFor id (past ++ [.recv (some d)]) = actionsFor id past ++ if d.id = id then [d.action] else [] := by
  have hc : commands (past ++ [.recv (some d)]) = commands past ++ [d] := List.filterMap_append
  unfold actionsFor
  rw [hc]
  by_cases h : d.id = id <;> simp [List.filter_append, h]

theorem actionsFor_quiet {l : Label} (hl : ∀ d, l ≠ .recv (some d)) (id : String) (past : List Label) :
    actionsFor id (past ++ [l]) = actionsFor id past := by
  have hc : commands (past ++ [l]) = commands past := by
    unfold commands
    cases l with
    | recv command =>
      cases command with
      | none => simp
      | some d => exact absurd rfl (hl d)
    | _ => simp
  rw [actionsFor, actionsFor, hc]

/-- The part is the cell, in all its copies. -/
structure Part.IsCell (part : Part) (c : Cell) : Prop where
  coils : part.coils = [c.value]
  value : part.value = some (.bool c.value)
  told : part.told = c.told.map .bool

section
variable {m : OutputContextMap} {env : Env} {w : World} {s₀ s s' : St} {id : String} {part : Part} {c : Cell}

/-- What a command for a digital output is for. -/
theorem outcome_digital {om : OutputContextMap} {io : WagoIO} {d : IODataAction} {b : Bool}
    (hk : kindOf om d.id = some (.woDigital io)) (hv : valueAt om d.id = some (.bool b)) :
    outcome om d = match d.action with
      | .setValue (.bool b') => .digital io b'
      | .toggle => .digital io !b
      | _ => .ignore := by
  obtain ⟨ctx, hl, hkind, hvalue⟩ := context_of_kind hk
  rw [outcome_of_lookup hl]
  simp only [outcomeOf, hkind, hvalue, hv]
  cases d.action with
  | setValue v => cases v <;> rfl
  | toggle => rfl
  | stop => rfl

/-- A command acts on the cell. -/
theorem Part.IsCell.command {io : WagoIO} {d : IODataAction} {now : Nat} (h : (s.part d.id).IsCell c)
    (hk : kindOf s.outputMap d.id = some (.woDigital io)) :
    ((outcome s.outputMap d).apply now (s.part d.id)).IsCell (c.act d.action) := by
  rw [outcome_digital hk h.value]
  unfold Cell.act
  split
  · exact ⟨rfl, rfl, by simp [Outcome.apply, Cell.set, h.told]⟩
  · exact ⟨rfl, rfl, by simp [Outcome.apply, Cell.set, h.told]⟩
  · exact h

/-- No timer acts on it. -/
theorem Part.IsCell.expire {io : WagoIO} {now : Nat} (h : part.IsCell c) :
    (part.expire (some (.woDigital io)) now).IsCell c :=
  ⟨h.coils, h.value, h.told⟩

theorem Part.IsCell.turn {io : WagoIO} {b : Bool} {past : List Label} {l : Label} (hd : DistinctCoils m)
    (hk : kindOf m id = some (.woDigital io)) (hkinds : kindOf s.outputMap = kindOf m)
    (h : (s.part id).IsCell (Cell.after b (actionsFor id past))) (hstep : step env s l = some s') :
    (s'.part id).IsCell (Cell.after b (actionsFor id (past ++ [l]))) := by
  obtain ⟨hen, hi⟩ := step_eq_some.1 hstep
  cases l with
  | recv command =>
    cases command with
    | none =>
      cases hi
      rw [actionsFor_quiet (by simp)]
      exact h
    | some d =>
      obtain ⟨now, _, _, hmade⟩ := onCommand_madeAt hi
      obtain ⟨hparts, _⟩ := command_parts hd hkinds (step_spec hstep).2 hmade
      rw [hparts, actionsFor_recv]
      by_cases hid : d.id = id
      · subst hid
        rw [Function.update_self, if_pos rfl, Cell.after_append]
        exact h.command (by rw [hkinds, hk])
      · rw [Function.update_of_ne (Ne.symm hid), if_neg hid, List.append_nil]
        exact h
  | expiry order =>
    obtain ⟨hparts, _⟩ := onExpiry_parts hd hkinds hen.2.2 hi
    rw [hparts, hk, actionsFor_quiet (by simp)]
    exact h.expire
  | keepAlive =>
    obtain ⟨w', hw, rfl⟩ := (step_spec hstep).2
    rw [actionsFor_quiet (by simp)]
    refine ⟨?_, h.value, h.told⟩
    simp only [St.part, hw.coils]
    exact h.coils

/-- A loop that reads the coils as they are starts the cell with its coil. -/
theorem Part.IsCell.start {order : List String} {io : WagoIO} (hd : DistinctCoils m) (ho : HMap.Enumerates order m)
    (hread : AllRead lit env order (init w m)) (hs : startup env order (init w m) = .ok () s₀)
    (hk : kindOf m id = some (.woDigital io)) : (s₀.part id).IsCell (Cell.start (lit w.coils io.var)) := by
  obtain ⟨hparts, _⟩ := startup_parts hd (fun _ _ _ h => h) order _ rfl ho.1 hread hs
  have hid : id ∈ order := (ho.2 id).2 (mem_of_kindOf hk)
  rw [hparts, if_pos hid, hk]
  refine ⟨?_, rfl, rfl⟩
  simp only [Part.start, St.part, init, coilsAt_of_kind hk, coilsOf, List.map_cons, List.map_nil, lit_coilAddr,
    Cell.start]

/-- **A digital output behaves as one boolean cell.** -/
theorem digital_cell {order : List String} {ls : List Label} {io : WagoIO} (hd : DistinctCoils m)
    (ho : HMap.Enumerates order m) (hread : AllRead lit env order (init w m))
    (hs : startup env order (init w m) = .ok () s₀) (hr : run (step env) s₀ ls = some s)
    (hk : kindOf m id = some (.woDigital io)) :
    let cell := Cell.after (lit w.coils io.var) (actionsFor id ls)
    lit s.world.coils io.var = cell.value ∧ valueAt s.outputMap id = some (.bool cell.value) ∧
    lastValue id s.txFeedback = some (.bool cell.value) ∧ toldOf id s.txFeedback = cell.told.map .bool := by
  have h₀ : Started env w m s₀ := ⟨order, ho, hs⟩
  have hcell : kindOf s.outputMap = kindOf m ∧
      (s.part id).IsCell (Cell.after (lit w.coils io.var) (actionsFor id ls)) := by
    refine run_traced (step env) (I := fun past t => kindOf t.outputMap = kindOf m ∧
      (t.part id).IsCell (Cell.after (lit w.coils io.var) (actionsFor id past))) ?_ ?_ hr
    · rintro past t l t' ⟨hkinds, hc⟩ hstep
      exact ⟨(Effect.kindOf (step_spec hstep).2).trans hkinds, hc.turn hd hk hkinds hstep⟩
    · exact ⟨h₀.ready.kinds, .start hd ho hread hs hk⟩
  obtain ⟨hkinds, hc⟩ := hcell
  have hcoil := hc.coils
  have htold : toldOf id s.txFeedback = _ := hc.told
  simp only [St.part, coilsAt_of_kind (show kindOf s.outputMap id = _ by rw [hkinds, hk]), coilsOf, List.map_cons,
    List.map_nil, lit_coilAddr, List.cons.injEq, and_true] at hcoil
  refine ⟨hcoil, hc.value, ?_, htold⟩
  rw [← getLast_toldOf, htold, List.getLast?_map, Cell.getLast_told]
  rfl

end

/-- The state after the turns `ls`, if none of them fails. -/
def after (env : Env) : St → List Label → St
  | s, [] => s
  | s, l :: ls => after env (stateAfter (iteration env l s)) ls

/-- None of them fails. -/
def allSucceed (env : Env) : St → List Label → Bool
  | _, [] => true
  | s, l :: ls =>
    decide (enabled s l) && succeeds (iteration env l s) && allSucceed env (stateAfter (iteration env l s)) ls

theorem run_after {env : Env} : ∀ (ls : List Label) (s : St), allSucceed env s ls = true →
    run (step env) s ls = some (after env s ls)
  | [], _, _ => rfl
  | l :: ls, s, h => by
    simp only [allSucceed, Bool.and_eq_true, decide_eq_true_eq] at h
    obtain ⟨⟨hl, hi⟩, hrest⟩ := h
    exact (run_cons _).2 ⟨_, step_stateAfter hl hi, run_after ls _ hrest⟩

/-- The lamp is toggled, a shutter sent up, a text and a stop sent to the lamp, and the lamp set. -/
def lampTurns : List Label :=
  [.recv (some ⟨"lamp", .toggle⟩), .recv (some ⟨"blinds", .setValue (.shutter .up)⟩),
    .recv (some ⟨"lamp", .setValue (.string "on")⟩), .recv (some ⟨"lamp", .stop⟩),
    .recv (some ⟨"lamp", .setValue (.bool false)⟩), .recv (some ⟨"lamp", .toggle⟩)]

theorem digital_cell_lamp :
    let s := after (plcEnv 0 100) threeStart lampTurns
    let cell := Cell.after (lit idleWorld.coils lamp.var) (actionsFor "lamp" lampTurns)
    cell = ⟨true, [false, true, false, true]⟩ ∧
    lit s.world.coils lamp.var = cell.value ∧ valueAt s.outputMap "lamp" = some (.bool cell.value) ∧
    lastValue "lamp" s.txFeedback = some (.bool cell.value) ∧ toldOf "lamp" s.txFeedback = cell.told.map .bool :=
  have hs : startup (plcEnv 0 100) ["lamp", "blinds", "awning"] (init idleWorld threeOutputs) = .ok () threeStart :=
    eq_ok (by decide +kernel)
  have hr : run (step (plcEnv 0 100)) threeStart lampTurns = some (after (plcEnv 0 100) threeStart lampTurns) :=
    run_after lampTurns threeStart (by decide +kernel)
  ⟨by decide +kernel, digital_cell (by decide +kernel) (by decide +kernel) (by decide +kernel) hs hr (by decide +kernel)⟩

/-! ## A shutter that is not to move -/

/-- `Stop`, or a value that is no shutter state. -/
def asksNoMovement : IOAction → Bool
  | .stop => true
  | .setValue (.shutter _) => false
  | .setValue _ => true
  | .toggle => false

/-- A command leaves the shutter as it is: dark, without a task, and with the state that was kept for it and
reported last. -/
structure LeftAlone (s s' : St) (id : String) (io : WagoIOUpDown) : Prop where
  dark : Dark s'.world.coils io
  task : s'.waitTask.lookup id = none
  kept : valueAt s'.outputMap id = valueAt s.outputMap id
  reported : lastValue id s'.txFeedback = lastValue id s.txFeedback

section
variable {m : OutputContextMap} {s s' : St} {id : String} {io : WagoIOUpDown} {action : IOAction}

/-- All that asks for no movement is one case, the one of a shutter that is to stop. -/
theorem outcome_halt (hs : IsShutter s.outputMap id io) (ha : asksNoMovement action = true) :
    outcome s.outputMap ⟨id, action⟩ = .halt io := by
  obtain ⟨ctx, hl, hk, _⟩ := context_of_kind hs
  rw [outcome_of_lookup (d := ⟨id, action⟩) hl]
  simp only [outcomeOf]
  cases action with
  | stop => simp [newValue, shutterCommand, hk]
  | toggle => cases ha
  | setValue v =>
    cases v with
    | shutter state => cases ha
    | _ => simp [newValue, shutterCommand, hk]

/-- After it the shutter is dark and without a task, and both copies of its state are `Up`. -/
theorem halted {env : Env} (hs : IsShutter s.outputMap id io) (ha : asksNoMovement action = true)
    (hstep : step env s (.recv (some ⟨id, action⟩)) = some s') :
    Dark s'.world.coils io ∧ s'.waitTask.lookup id = none ∧ valueAt s'.outputMap id = some (.shutter .up) ∧
    lastValue id s'.txFeedback = some (.shutter .up) := by
  have he : CmdEffect s id (outcome s.outputMap ⟨id, action⟩) s' := (step_spec hstep).2
  rw [outcome_halt hs ha] at he
  obtain ⟨w', hstop, _, rfl⟩ := he
  exact ⟨hstop.dark, Finmap.lookup_erase _ _, valueAt_setValue hs, lastValue_append_self _⟩

/-- The state reported for a shutter that is kept as `Up` is `Up`. -/
theorem Informed.reported_up {past : List Label} {tasks : String → Option Task} (h : Informed m past tasks s)
    (hs : IsShutter m id io) (hv : valueAt s.outputMap id = some (.shutter .up)) :
    lastValue id s.txFeedback = some (.shutter .up) := by
  rcases h.informs id _ hs with ⟨_, state, hv', hl⟩ | ⟨_, _, hl⟩
  · rw [hl, ← hv', hv]
  · exact hl

/-- **A command that asks for no movement leaves a shutter as it is exactly when it is kept as `Up`.** It is dark
and without a task after any. -/
theorem idle_shutter {env : Env} {w : World} {s₀ : St} {ls : List Label} (h₀ : Started env w m s₀)
    (hr : run (step env) s₀ ls = some s) (hs : IsShutter m id io) (ha : asksNoMovement action = true)
    (hstep : step env s (.recv (some ⟨id, action⟩)) = some s') :
    (LeftAlone s s' id io ↔ valueAt s.outputMap id = some (.shutter .up)) ∧
    Dark s'.world.coils io ∧ s'.waitTask.lookup id = none := by
  have hi := informed_run h₀ hr
  have hs' : IsShutter s.outputMap id io := by
    unfold IsShutter
    rw [hi.kinds]
    exact hs
  obtain ⟨hdark, htask, hkept, hreported⟩ := halted hs' ha hstep
  refine ⟨⟨?_, ?_⟩, hdark, htask⟩
  · intro h
    rw [← h.kept, hkept]
  · intro hup
    exact ⟨hdark, htask, by rw [hkept, hup], by rw [hreported, hi.reported_up hs hup]⟩

end

/-- A movement is over before its controller has the time to look. -/
abbrev slowEnv : Env := plcEnv 10000000000 100

theorem slow_started : Started slowEnv idleWorld oneShutter (blindsStart slowEnv) :=
  ⟨["blinds"], by decide +kernel, eq_ok (by decide +kernel)⟩

theorem blinds_isShutter : IsShutter oneShutter "blinds" blinds :=
  show kindOf oneShutter "blinds" = some (.woShutter blinds) by decide +kernel

/-- The blinds go down, and their task expires. -/
def closeBlinds : List Label := [setShutter .down, .expiry ["blinds"]]

def stopBlinds : Label := .recv (some ⟨"blinds", .stop⟩)

/-- Blinds that have been closed are taken to be open after a `Stop`. -/
theorem idle_shutter_closed :
    let s := after slowEnv (blindsStart slowEnv) closeBlinds
    let s' := stateAfter (iteration slowEnv stopBlinds s)
    Started slowEnv idleWorld oneShutter (blindsStart slowEnv) ∧
    run (step slowEnv) (blindsStart slowEnv) closeBlinds = some s ∧ step slowEnv s stopBlinds = some s' ∧
    IsShutter oneShutter "blinds" blinds ∧ Dark s.world.coils blinds ∧ s.waitTask.lookup "blinds" = none ∧
    valueAt s.outputMap "blinds" = some (.shutter .down) ∧ valueAt s'.outputMap "blinds" = some (.shutter .up) ∧
    ¬ LeftAlone s s' "blinds" blinds := by
  refine ⟨slow_started, run_after _ _ (by decide +kernel), step_stateAfter (by decide +kernel) (by decide +kernel),
    blinds_isShutter, ⟨by decide +kernel, by decide +kernel⟩, by decide +kernel, by decide +kernel, by decide +kernel, ?_⟩
  intro h
  exact absurd h.kept (by decide +kernel)

/-- A second `Stop` changes nothing. -/
theorem idle_shutter_open :
    let s := after slowEnv (blindsStart slowEnv) (closeBlinds ++ [stopBlinds])
    LeftAlone s (stateAfter (iteration slowEnv stopBlinds s)) "blinds" blinds :=
  have hr : run (step slowEnv) (blindsStart slowEnv) (closeBlinds ++ [stopBlinds]) = some _ :=
    run_after (closeBlinds ++ [stopBlinds]) (blindsStart slowEnv) (by decide +kernel)
  have hstep := step_stateAfter (s := after slowEnv (blindsStart slowEnv) (closeBlinds ++ [stopBlinds]))
    (l := stopBlinds) (by decide +kernel) (by decide +kernel)
  (idle_shutter slow_started hr blinds_isShutter rfl hstep).1.2 (by decide +kernel)

end Calaos.Wago
