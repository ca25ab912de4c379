import Calaos.RulesEngine
/-!
# What one step of the rules engine does to the shared maps

A command writes at most the input it is for, feedback at most the output it is for, and a request for the
home is answered from both maps as they are. Nothing else touches them (`step_maps`), and no step changes
which contexts there are or which rules are entered under an input.
-/
namespace Calaos.Engine

open Runs

/-- The inputs once a command is there: a value is written, anything else is not for an input. -/
def writeCommand (inputMap : InputSharedContextMap) : IODataCmd → InputSharedContextMap
  | .action ⟨id, .setValue value⟩ => writeInput inputMap id value
  | _ => inputMap

/-- The inputs after a step. -/
def nextInputs (inputMap : InputSharedContextMap) : Label → InputSharedContextMap
  | .recv (some command) => writeCommand inputMap command
  | _ => inputMap

/-- The outputs after a step. -/
def nextOutputs (outputMap : OutputSharedContextMap) : Label → OutputSharedContextMap
  | .feedback d => writeOutput outputMap d.id d.value
  | _ => outputMap

/-- The answer given to a command. -/
def answerTo (io : IoConfig) (s : St) : IODataCmd → List (Nat × HomeData)
  | .getAllData handler => [(handler, HomeData.new io s.inputMap s.outputMap)]
  | .action _ => []

/-- The answer given in a step. -/
def nextAnswers (io : IoConfig) (s : St) : Label → List (Nat × HomeData)
  | .recv (some command) => answerTo io s command
  | _ => []

/-- What is sent in a step. -/
def nextSent (s : St) : Label → List IODataAction
  | .sent =>
    match s.pc with
    | .send command _ _ => [command]
    | _ => []
  | _ => []

/-- The feedback that `handle_output_feedback` has processed. -/
def feedbacks (past : List Label) : List IOData :=
  past.filterMap fun
    | .feedback ioData => some ioData
    | _ => none

section
variable {io : IoConfig} {rulesConfig : Rules.RulesConfig} {s t : St} {l : Label} {past : List Label}

theorem resume_frame (s : St) (actions : List Rules.Action) (rules : List Rules.Rule) :
    (resume s actions rules).inputMap = s.inputMap ∧ (resume s actions rules).outputMap = s.outputMap ∧
      (resume s actions rules).sent = s.sent ∧ (resume s actions rules).answers = s.answers := by
  unfold resume
  split <;> exact ⟨rfl, rfl, rfl, rfl⟩

theorem writeInput_of_not_mem {inputMap : InputSharedContextMap} {id : String} (h : inputMap.lookup id = none)
    (value : IOValue) : writeInput inputMap id value = inputMap := by
  unfold writeInput HMap.modify
  rw [h]

theorem handleCommand_maps (io : IoConfig) (s : St) (command : IODataCmd) :
    (handleCommand io s command).inputMap = writeCommand s.inputMap command ∧
      (handleCommand io s command).outputMap = s.outputMap ∧
      (handleCommand io s command).answers = s.answers ++ answerTo io s command := by
  cases command with
  | getAllData handler => exact ⟨rfl, rfl, rfl⟩
  | action ioAction =>
    obtain ⟨id, action⟩ := ioAction
    simp only [handleCommand, answerTo, List.append_nil]
    cases hl : s.inputMap.lookup id with
    | none =>
      cases action with
      | setValue value => exact ⟨(writeInput_of_not_mem hl value).symm, rfl, rfl⟩
      | toggle | stop => exact ⟨rfl, rfl, rfl⟩
    | some context =>
      cases action with
      | setValue value =>
        obtain ⟨hin, hout, _, hans⟩ :=
          resume_frame { s with inputMap := writeInput s.inputMap id value } [] context.rules
        exact ⟨hin, hout, hans⟩
      | toggle | stop => exact ⟨rfl, rfl, rfl⟩

/-- **The shared maps and the answers**, after any step. -/
theorem step_maps (h : step io s l = some t) :
    t.inputMap = nextInputs s.inputMap l ∧ t.outputMap = nextOutputs s.outputMap l ∧
      t.answers = s.answers ++ nextAnswers io s l := by
  cases Step.of_step h with
  | command command => exact handleCommand_maps io s command
  | sent command actions rules =>
    obtain ⟨hin, hout, _, hans⟩ := resume_frame { s with sent := s.sent ++ [command] } actions rules
    exact ⟨hin, hout, hans.trans (List.append_nil _).symm⟩
  | ended | sendFails | feedback | feedbackFails => exact ⟨rfl, rfl, (List.append_nil _).symm⟩

/-- No command is sent but the one that waits. -/
theorem step_sent (h : step io s l = some t) : t.sent = s.sent ++ nextSent s l := by
  have hresume : ∀ (u : St) (actions : List Rules.Action) (rules : List Rules.Rule),
      (resume u actions rules).sent = u.sent := fun u actions rules => (resume_frame u actions rules).2.2.1
  cases Step.of_step h with
  | command command =>
    refine Eq.trans ?_ (List.append_nil _).symm
    cases command with
    | getAllData handler => rfl
    | action ioAction =>
      simp only [handleCommand]
      split
      · split
        · exact hresume _ _ _
        · rfl
      · rfl
  | sent command actions rules hp =>
    rw [hresume]
    simp [nextSent, hp]
  | ended | sendFails | feedback | feedbackFails => exact (List.append_nil _).symm

/-- Only feedback changes an output. -/
theorem step_outputMap (h : step io s l = some t) :
    t.outputMap = s.outputMap ∨ ∃ d : IOData, t.outputMap = writeOutput s.outputMap d.id d.value := by
  rw [(step_maps h).2.1]
  cases l with
  | feedback d => exact .inr ⟨d, rfl⟩
  | recv | sent | sendFails | feedbackFails => exact .inl rfl

theorem writeCommand_rules (inputMap : InputSharedContextMap) (command : IODataCmd) (id : String) :
    ((writeCommand inputMap command).lookup id).map (·.rules) = (inputMap.lookup id).map (·.rules) := by
  unfold writeCommand
  split
  · rename_i id' value
    simp only [writeInput, HMap.lookup_modify_eq]
    split
    · rename_i hid
      rw [hid]
      cases inputMap.lookup id' <;> rfl
    · rfl
  · rfl

/-- The rules entered under an input stay what `make_input_context_map` made them. -/
theorem step_rules (h : step io s l = some t) (id : String) :
    (t.inputMap.lookup id).map (·.rules) = (s.inputMap.lookup id).map (·.rules) := by
  rw [(step_maps h).1]
  unfold nextInputs
  split
  · exact writeCommand_rules _ _ id
  · rfl

theorem run_rules (h : run (step io) (init io rulesConfig) past = some s) (id : String) :
    (s.inputMap.lookup id).map (·.rules) = ((makeInputContextMap io rulesConfig).lookup id).map (·.rules) :=
  run_invariant (step io) (I := fun t => (t.inputMap.lookup id).map (·.rules) =
      ((makeInputContextMap io rulesConfig).lookup id).map (·.rules))
    (fun _ _ _ hi ht => (step_rules ht id).trans hi) rfl h

/-- No context is ever lost. -/
theorem run_complete (h : run (step io) (init io rulesConfig) past = some s) :
    Complete io s.inputMap s.outputMap := by
  obtain ⟨hin, hout⟩ := complete_make io rulesConfig
  constructor
  · intro input hi
    have hsome := Finmap.lookup_isSome.2 (hin input hi)
    rw [← Finmap.lookup_isSome, ← Option.isSome_map (f := (·.rules)), run_rules h, Option.isSome_map]
    exact hsome
  · refine run_invariant (step io) (I := fun t => ∀ output ∈ io.outputs, output.id ∈ t.outputMap) ?_ hout h
    intro t l t' hi ht
    rcases step_outputMap ht with he | ⟨d, he⟩
    · rwa [he]
    · rw [he]
      intro output ho
      exact HMap.mem_modify.2 (hi output ho)

end

end Calaos.Engine
