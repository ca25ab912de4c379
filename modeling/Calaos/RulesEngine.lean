import Calaos.JsonProtocol
import Calaos.Runs
/-!
# The rules engine (core/src/rules_engine.rs)

| here | there |
| --- | --- |
| `shouldExec`, `getRefValue`    | `should_exec`, `get_ref_value` |
| `nextAction`, `nextSend`       | the loops over rules and actions with `exec_action`, up to its next `send(..).await` |
| `St`, `Label`, `step`          | `run`: `handle_input` and `handle_output_feedback` joined |

The two halves of `run` share one task and give way to each other only where they wait. So one step of
`handle_input` goes from one wait to the next, with everything in between done at once, and a feedback
message may come at every wait. A lock that cannot be taken does not occur: no code panics with one.
-/
namespace Calaos

namespace Rules

/-- The `eval` of a condition. -/
def Operator.eval (operator : Operator) (value ref : IOValue) : Bool :=
  match operator with
  | .equal => value == ref
  | .notEqual => value != ref
  | .greater => value.partialCmp ref == some .gt
  | .greaterOrEqual => value.partialCmp ref == some .gt || value.partialCmp ref == some .eq
  | .lower => value.partialCmp ref == some .lt
  | .lowerOrEqual => value.partialCmp ref == some .lt || value.partialCmp ref == some .eq

/-- What `exec_action` sends. -/
def Action.command (action : Action) : IODataAction := ⟨action.output.id, action.output.val⟩

end Rules

/-- `IODataCmd`. A `GetAllData` request carries the sender of its answer, here a number. -/
inductive IODataCmd where
  | action (ioAction : IODataAction)
  | getAllData (handler : Nat)
deriving DecidableEq

namespace Engine

open Runs

/-! ## Rules -/

/-- One turn of the loop of `should_exec`. -/
def holds (inputMap : InputSharedContextMap) : Rules.ConditionKind → Bool
  | .start => true
  | .standard input =>
    match inputMap.lookup input.id with
    | none => false
    | some refInput =>
      match refInput.value with
      | none => false
      | some value => input.operator.eval value input.value

/-- `should_exec`: no condition is considered ok. -/
def shouldExec (conditions : List Rules.ConditionKind) (inputMap : InputSharedContextMap) : Bool :=
  conditions.all (holds inputMap)

/-- `get_ref_value`. -/
def getRefValue (id : String) (outputMap : OutputSharedContextMap) : Option IOValue :=
  (outputMap.lookup id).bind (·.value)

/-- The loop over `rule.actions`: actions without a reference value are passed over. -/
def nextAction (outputMap : OutputSharedContextMap) :
    List Rules.Action → Option (IODataAction × List Rules.Action)
  | [] => none
  | action :: actions =>
    if (getRefValue action.output.id outputMap).isSome then some (action.command, actions)
    else nextAction outputMap actions

/-- The loop over `context.rules`. -/
def nextRule (inputMap : InputSharedContextMap) (outputMap : OutputSharedContextMap) :
    List Rules.Rule → Option (IODataAction × List Rules.Action × List Rules.Rule)
  | [] => none
  | rule :: rules =>
    if shouldExec rule.conditions inputMap then
      match nextAction outputMap rule.actions with
      | some (command, actions) => some (command, actions, rules)
      | none => nextRule inputMap outputMap rules
    else nextRule inputMap outputMap rules

/-- Both loops, taken up in the middle of a rule. -/
def nextSend (inputMap : InputSharedContextMap) (outputMap : OutputSharedContextMap)
    (actions : List Rules.Action) (rules : List Rules.Rule) :
    Option (IODataAction × List Rules.Action × List Rules.Rule) :=
  match nextAction outputMap actions with
  | some (command, actions) => some (command, actions, rules)
  | none => nextRule inputMap outputMap rules

/-! ## The two tasks -/

/-- Where `handle_input` waits: for a command, or for room in the output channel. `stopped` is the end
of `run` by an error, `done` the end of `handle_input` alone. -/
inductive Pc where
  | recv
  | send (command : IODataAction) (actions : List Rules.Action) (rules : List Rules.Rule)
  | done
  | stopped

/-- The shared maps, the place of `handle_input`, and what was sent and answered so far. -/
structure St where
  inputMap : InputSharedContextMap
  outputMap : OutputSharedContextMap
  pc : Pc
  sent : List IODataAction
  answers : List (Nat × HomeData)

/-- What happens next: a wait that ends, well or badly. -/
inductive Label where
  | recv (command : Option IODataCmd)
  | sent
  | sendFails
  | feedback (ioData : IOData)
  | feedbackFails

/-- `write_io_value` on an input. -/
def writeInput (inputMap : InputSharedContextMap) (id : String) (value : IOValue) : InputSharedContextMap :=
  inputMap.modify id fun context => { context with value := some value }

/-- `write_io_value` on an output. -/
def writeOutput (outputMap : OutputSharedContextMap) (id : String) (value : IOValue) : OutputSharedContextMap :=
  outputMap.modify id fun context => { context with value := some value }

/-- `handle_input` goes on with the loops until it waits again. -/
def resume (s : St) (actions : List Rules.Action) (rules : List Rules.Rule) : St :=
  match nextSend s.inputMap s.outputMap actions rules with
  | some (command, actions, rules) => { s with pc := .send command actions rules }
  | none => { s with pc := .recv }

/-- The body of the loop of `handle_input` for one command, up to its first wait. -/
def handleCommand (io : IoConfig) (s : St) : IODataCmd → St
  | .action ioAction =>
    match s.inputMap.lookup ioAction.id with
    | some context =>
      match ioAction.action with
      | .setValue value => resume { s with inputMap := writeInput s.inputMap ioAction.id value } [] context.rules
      | _ => s
    | none => { s with pc := .send ioAction [] [] }
  | .getAllData handler =>
    { s with answers := s.answers ++ [(handler, HomeData.new io s.inputMap s.outputMap)] }

/-- One step of `run`. -/
def step (io : IoConfig) (s : St) : Label → Option St
  | .recv command =>
    match s.pc with
    | .recv =>
      match command with
      | some command => some (handleCommand io s command)
      | none => some { s with pc := .done }
    | _ => none
  | .sent =>
    match s.pc with
    | .send command actions rules => some (resume { s with sent := s.sent ++ [command] } actions rules)
    | _ => none
  | .sendFails =>
    match s.pc with
    | .send _ _ _ => some { s with pc := .stopped }
    | _ => none
  | .feedback ioData =>
    match s.pc with
    | .stopped => none
    | _ => some { s with outputMap := writeOutput s.outputMap ioData.id ioData.value }
  | .feedbackFails =>
    match s.pc with
    | .stopped => none
    | _ => some { s with pc := .stopped }

/-- `run` as `main` calls it. -/
def init (io : IoConfig) (rulesConfig : Rules.RulesConfig) : St :=
  ⟨makeInputContextMap io rulesConfig, makeOutputContextMap io, .recv, [], []⟩

section
variable {io : IoConfig} {s s' : St} {l : Label}

variable (io s) in
/-- Every way to take a step. -/
inductive Step : Label → St → Prop where
  | command (command : IODataCmd) (hp : s.pc = .recv) : Step (.recv (some command)) (handleCommand io s command)
  | ended (hp : s.pc = .recv) : Step (.recv none) { s with pc := .done }
  | sent (command : IODataAction) (actions : List Rules.Action) (rules : List Rules.Rule)
    (hp : s.pc = .send command actions rules) :
    Step .sent (resume { s with sent := s.sent ++ [command] } actions rules)
  | sendFails (command : IODataAction) (actions : List Rules.Action) (rules : List Rules.Rule)
    (hp : s.pc = .send command actions rules) : Step .sendFails { s with pc := .stopped }
  | feedback (ioData : IOData) (hp : s.pc ≠ .stopped) :
    Step (.feedback ioData) { s with outputMap := writeOutput s.outputMap ioData.id ioData.value }
  | feedbackFails (hp : s.pc ≠ .stopped) : Step .feedbackFails { s with pc := .stopped }

theorem Step.of_step (h : step io s l = some s') : Step io s l s' := by
  cases l with
  | recv command =>
    simp only [step] at h
    split at h
    · rename_i hp
      cases command with
      | some command =>
        cases h
        exact .command command hp
      | none =>
        cases h
        exact .ended hp
    · cases h
  | sent =>
    simp only [step] at h
    split at h
    · rename_i hp
      cases h
      exact .sent _ _ _ hp
    · cases h
  | sendFails =>
    simp only [step] at h
    split at h
    · rename_i hp
      cases h
      exact .sendFails _ _ _ hp
    · cases h
  | feedback ioData =>
    simp only [step] at h
    split at h
    · cases h
    · rename_i hp
      cases h
      exact .feedback ioData hp
  | feedbackFails =>
    simp only [step] at h
    split at h
    · cases h
    · rename_i hp
      cases h
      exact .feedbackFails hp

end

end Engine

end Calaos
