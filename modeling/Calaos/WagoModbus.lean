import Calaos.IoContext
import Calaos.ModbusClient
import Calaos.Runs
/-!
# The Wago output controller (core/src/io/wago_modbus_controller.rs, core/src/task.rs)

| here | there |
| --- | --- |
| `Task`, `Task.fromNow`        | `task::Task`; `Instant + Duration` panics past the last instant |
| `readVar`, `setVar`, `stopShutter`, `updateState` | the helpers below `run` |
| `startup`                     | the loop over `output_map` before `run`'s main loop |
| `onCommand`, `onExpiry`       | the two working branches of the `tokio::select!` |
| `Label`, `enabled`, `iteration`, `step` | one turn of the main loop: which branch of the `select!` is taken, and with what |
| `Event`                       | what the run did, for the statements about its history |

The expiry branch may be taken at any instant at which `wait_task` is not empty: the model does not
assume that `sleep_until` is punctual. `output_map` and `wait_task` are hash maps, so the order of a
loop over one of them is an argument.
-/
namespace Calaos.Wago

open Eff

/-- `task::Task`. -/
structure Task where
  deadline : Nat
  targetState : IOValue
deriving DecidableEq

/-- One thing the run did, in order. `command` says whether `wait_task` had a task for the output at
that time, `started` what the end of the movement is and when the switch-on write had returned. -/
inductive Event where
  | command (id : String) (moving : Bool)
  | started (id : String) (target : ShutterState) (since : Nat)
  | expired (id : String) (state : IOValue) (now : Nat)
  | unexpectedTask (id : String)
  | unknownTask (id : String)
deriving DecidableEq

/-- The variables of `run`, with the world and the values sent on `tx_feedback`. -/
structure St where
  world : World
  txFeedback : List IOData
  outputMap : OutputContextMap
  waitTask : HMap String Task
  closed : Bool
  log : List Event

/-- A piece of `run`. -/
abbrev Ctl := EStateM Fault St

/-- A piece of `run` that only talks to the PLC or reads the clock. -/
def onWorld {α : Type} (m : Act α) : Ctl α := zoom St.world (fun s w => { s with world := w }) m

/-- Record an event. -/
def emit (e : Event) : Ctl Unit := modify fun s => { s with log := s.log ++ [e] }

/-! ## Helpers -/

/-- `u16::try_from`. -/
def u16TryFrom (x : UInt32) : Option UInt16 := if x.toNat < 65536 then some x.toUInt16 else none

/-- `read_var`. -/
def readVar (env : Env) (var : UInt32) : Act Bool :=
  match u16TryFrom (var + 0x200) with
  | some address => readDiscreteInput env address
  | none => throw .address

/-- `set_var`. -/
def setVar (env : Env) (var : UInt32) (value : Bool) : Act Unit :=
  match u16TryFrom (var ||| 0x1000) with
  | some address => writeSingleCoil env address value
  | none => throw .address

def setVarOff (env : Env) (var : UInt32) : Act Unit := setVar env var false

def setVarOn (env : Env) (var : UInt32) : Act Unit := setVar env var true

/-- `modbus_keep_alive`. -/
def modbusKeepAlive (env : Env) : Act Unit := do
  let _ ← readDiscreteInputs env 0 1

/-- `stop_shutter`. -/
def stopShutter (env : Env) (io : WagoIOUpDown) : Act Unit := do
  setVarOff env io.varDown
  setVarOff env io.varUp

/-- `tx_feedback.send(..)?`: an error when nobody listens. -/
def sendFeedback (env : Env) (data : IOData) : Ctl Unit := do
  onWorld (elapse env 0)
  if env.send (← get).world.tick then modify fun s => { s with txFeedback := s.txFeedback ++ [data] }
  else throw .feedback

/-- `update_state`. -/
def updateState (env : Env) (id : String) (value : IOValue) : Ctl Unit := do
  modify fun s => { s with outputMap := s.outputMap.modify id fun ctx => { ctx with value := some value } }
  sendFeedback env ⟨id, value⟩

/-- `Task::from_now`. An `Instant` counts its seconds in an `i64`. -/
def Task.fromNow (env : Env) (duration : Duration) (targetState : IOValue) : Act Task := do
  let deadline := (← instantNow env) + duration.toNanos
  if deadline / 1000000000 < 2 ^ 63 then pure ⟨deadline, targetState⟩ else throw .panic

/-! ## Start -/

/-- The body of the first loop of `run`. -/
def startOutput (env : Env) (id : String) : Ctl Unit := do
  match (← get).outputMap.lookup id with
  | none => pure ()
  | some context =>
    match context.output.kind with
    | .woDigital io => do
      let value ← onWorld (readVar env io.var)
      updateState env id (.bool value)
    | .woShutter io => do
      onWorld (stopShutter env io)
      sendFeedback env ⟨id, .shutter .up⟩
    | _ => pure ()

/-- The first loop of `run`, over the keys of `output_map`. -/
def startup (env : Env) : List String → Ctl Unit
  | [] => pure ()
  | id :: ids => do
    startOutput env id
    startup env ids

/-! ## Commands -/

/-- `new_value`; `none` is the `continue` of a toggle that has nothing to toggle. -/
def newValue (currentValue : Option IOValue) : IOAction → Option (Option IOValue)
  | .setValue v => some (some v)
  | .toggle =>
    match currentValue with
    | none => none
    | some value => (toggle value).map some
  | .stop => some none

/-- `command`: the direction to start, or `none` to stop. Asking for the direction the shutter moves
in stops it. -/
def shutterCommand (currentValue newValue : Option IOValue) : Option ShutterState :=
  match newValue with
  | some (.shutter state) =>
    if (state = .up ∧ currentValue = some (.shutter .movingUp)) ∨
        (state = .down ∧ currentValue = some (.shutter .movingDown)) then none
    else some state
  | _ => none

/-- `(var_on, next_state, target_state)`. -/
structure Movement where
  varOn : UInt32
  nextState : ShutterState
  targetState : ShutterState

def movement (io : WagoIOUpDown) : ShutterState → Movement
  | .up | .movingUp => ⟨io.varUp, .movingUp, .up⟩
  | .down | .movingDown => ⟨io.varDown, .movingDown, .down⟩

/-- The arm `Some(command)` of the shutter branch. -/
def startShutter (env : Env) (id : String) (io : WagoIOUpDown) (mv : Movement) : Ctl Unit := do
  onWorld (stopShutter env io)
  onWorld (setVarOn env mv.varOn)
  emit (.started id mv.targetState (← get).world.now)
  let task ← onWorld (Task.fromNow env io.time (.shutter mv.targetState))
  modify fun s => { s with waitTask := s.waitTask.insert id task }
  updateState env id (.shutter mv.nextState)

/-- The arm `None` of the shutter branch. -/
def haltShutter (env : Env) (id : String) (io : WagoIOUpDown) : Ctl Unit := do
  onWorld (stopShutter env io)
  modify fun s => { s with waitTask := s.waitTask.erase id }
  updateState env id (.shutter .up)

/-- The `match &ctx.output.kind` of the command branch. -/
def applyValue (env : Env) (id : String) (ctx : OutputContext) (newValue : Option IOValue) : Ctl Unit :=
  match ctx.output.kind with
  | .woDigital io =>
    match newValue with
    | some (.bool value) => do
      onWorld (setVar env io.var value)
      updateState env id (.bool value)
    | _ => pure ()
  | .woShutter io =>
    match shutterCommand ctx.value newValue with
    | some command => startShutter env id io (movement io command)
    | none => haltShutter env id io
  | _ => pure ()

/-- The branch `rx.recv()`, once a command is there. -/
def onCommand (env : Env) (ioData : IODataAction) : Ctl Unit := do
  emit (.command ioData.id ((← get).waitTask.lookup ioData.id).isSome)
  match (← get).outputMap.lookup ioData.id with
  | none => pure ()
  | some ctx =>
    match newValue ctx.value ioData.action with
    | none => pure ()
    | some value => applyValue env ioData.id ctx value

/-! ## Expiry -/

/-- The body of the loop over `wait_task`. -/
def expireTask (env : Env) (now : Nat) (id : String) : Ctl Unit := do
  match (← get).waitTask.lookup id with
  | none => pure ()
  | some task =>
    if task.deadline > now then pure ()
    else
      match (← get).outputMap.lookup id with
      | none => emit (.unknownTask id)
      | some ctx =>
        match ctx.output.kind with
        | .woShutter io => do
          onWorld (stopShutter env io)
          updateState env id task.targetState
          emit (.expired id task.targetState now)
        | _ => emit (.unexpectedTask id)

/-- The loop over `wait_task`. -/
def expireTasks (env : Env) (now : Nat) : List String → Ctl Unit
  | [] => pure ()
  | id :: ids => do
    expireTask env now id
    expireTasks env now ids

/-- The branch `wait_for_task(..)`. -/
def onExpiry (env : Env) (order : List String) : Ctl Unit := do
  let now ← onWorld (instantNow env)
  expireTasks env now order
  modify fun s => { s with waitTask := s.waitTask.retain fun _ task => task.deadline > now }

/-! ## The loop -/

/-- The branch one turn of the `select!` takes. -/
inductive Label where
  | recv (ioDataOpt : Option IODataAction)
  | expiry (order : List String)
  | keepAlive

/-- Whether the branch can be taken: `run` has not returned, and the expiry branch has its guard
`!wait_task.is_empty()`. -/
def enabled (s : St) : Label → Prop
  | .expiry order => s.closed = false ∧ s.waitTask ≠ ∅ ∧ HMap.Enumerates order s.waitTask
  | _ => s.closed = false

instance (s : St) : (l : Label) → Decidable (enabled s l)
  | .recv _ => inferInstanceAs (Decidable (s.closed = false))
  | .expiry order =>
    inferInstanceAs (Decidable (s.closed = false ∧ s.waitTask ≠ ∅ ∧ HMap.Enumerates order s.waitTask))
  | .keepAlive => inferInstanceAs (Decidable (s.closed = false))

/-- One turn of the main loop. A closed command channel ends `run` with `Ok(())`. -/
def iteration (env : Env) : Label → Ctl Unit
  | .recv none => modify fun s => { s with closed := true }
  | .recv (some ioData) => onCommand env ioData
  | .expiry order => onExpiry env order
  | .keepAlive => onWorld (modbusKeepAlive env)

/-- A turn without an error. -/
def step (env : Env) (s : St) (l : Label) : Option St :=
  if enabled s l then
    match iteration env l s with
    | .ok _ s' => some s'
    | .error _ _ => none
  else none

/-- `run` as it is called: nothing sent, no task. -/
def init (w : World) (m : OutputContextMap) : St := ⟨w, [], m, ∅, false, []⟩

/-- `s` is the state in which the main loop starts, the first loop having gone through `output_map`
in some order without an error. -/
def Started (env : Env) (w : World) (m : OutputContextMap) (s : St) : Prop :=
  ∃ order, HMap.Enumerates order m ∧ startup env order (init w m) = .ok () s

theorem step_eq_some {env : Env} {s s' : St} {l : Label} :
    step env s l = some s' ↔ enabled s l ∧ iteration env l s = .ok () s' := by
  unfold step
  split
  · rename_i he
    cases h : iteration env l s with
    | ok a t => cases a; simp [he]
    | error e t => simp
  · rename_i he
    simp [he]

end Calaos.Wago
