import Calaos.Config
import Calaos.HashMap
/-!
# Contexts and messages shared by the tasks (core/src/io_context.rs)

| here | there |
| --- | --- |
| `IOData`, `IODataAction`   | the messages of the feedback and of the command channels |
| `InputContext`, `OutputContext`, `InputSharedContext`, `OutputSharedContext` | the contexts; a `RwLock<Option<IOValue>>` is its content, since no code can panic while it holds the lock |
| `makeInputContextMap`, `makeOutputContextMap` | `make_input_context_map`, `make_output_context_map` |
-/
namespace Calaos

open History

/-- `io_context::IOData`. -/
structure IOData where
  id : String
  value : IOValue
deriving DecidableEq

/-- `io_context::IODataAction`. -/
structure IODataAction where
  id : String
  action : IOAction
deriving DecidableEq

/-- `struct InputContext`. -/
structure InputContext where
  input : Input
  value : Option IOValue
deriving DecidableEq

/-- `struct OutputContext`. -/
structure OutputContext where
  output : Output
  value : Option IOValue
deriving DecidableEq

/-- `struct InputSharedContext`. -/
structure InputSharedContext where
  input : Input
  rules : List Rules.Rule
  value : Option IOValue
deriving DecidableEq

/-- `struct OutputSharedContext`. -/
structure OutputSharedContext where
  output : Output
  value : Option IOValue
deriving DecidableEq

abbrev InputContextMap := HMap String InputContext
abbrev OutputContextMap := HMap String OutputContext
abbrev InputSharedContextMap := HMap String InputSharedContext
abbrev OutputSharedContextMap := HMap String OutputSharedContext

/-- The first loop of `make_input_context_map`: a later input with the same id replaces the earlier. -/
def insertInputs (io : IoConfig) : InputSharedContextMap :=
  io.inputs.foldl (fun map input => map.insert input.id ⟨input, [], none⟩) ∅

/-- The body of its second loop, for one condition of `rule`. -/
def indexCondition (rule : Rules.Rule) (map : InputSharedContextMap) :
    Rules.ConditionKind → InputSharedContextMap
  | .start => map
  | .standard input =>
    if input.id.isEmpty then map
    else map.modify input.id fun context => { context with rules := context.rules ++ [rule] }

/-- `make_input_context_map`. -/
def makeInputContextMap (io : IoConfig) (rulesConfig : Rules.RulesConfig) : InputSharedContextMap :=
  rulesConfig.rules.foldl (fun map rule => rule.conditions.foldl (indexCondition rule) map)
    (insertInputs io)

/-- `make_output_context_map`. -/
def makeOutputContextMap (io : IoConfig) : OutputSharedContextMap :=
  io.outputs.foldl (fun map output => map.insert output.id ⟨output, none⟩) ∅

/-! ## The index of the rules

`make_input_context_map` enters a rule under an input once for each of its conditions on that input. -/

/-- A `Standard` condition on the input `id`. -/
def Rules.ConditionKind.isOn (id : String) : Rules.ConditionKind → Bool
  | .start => false
  | .standard input => decide (input.id = id)

/-- The number of `Standard` conditions of the rule on the input `id`. -/
def Rules.Rule.standardOn (rule : Rules.Rule) (id : String) : Nat :=
  rule.conditions.countP (Rules.ConditionKind.isOn id)

/-- The rules entered under `id`. -/
def indexOf (rulesConfig : Rules.RulesConfig) (id : String) : List Rules.Rule :=
  rulesConfig.rules.flatMap fun rule => List.replicate (rule.standardOn id) rule

section
variable {map : InputSharedContextMap} {rule : Rules.Rule} {id : String}

/-- The context with more rules. -/
def InputSharedContext.push (context : InputSharedContext) (rules : List Rules.Rule) : InputSharedContext :=
  { context with rules := context.rules ++ rules }

@[simp] theorem map_push_nil (c : Option InputSharedContext) : c.map (·.push []) = c := by
  cases c <;> simp [InputSharedContext.push]

theorem push_push (rules rules' : List Rules.Rule) (context : InputSharedContext) :
    (context.push rules).push rules' = context.push (rules ++ rules') := by
  simp [InputSharedContext.push]

theorem lookup_indexCondition (hid : id ≠ "") (condition : Rules.ConditionKind) :
    (indexCondition rule map condition).lookup id =
      (map.lookup id).map (·.push (List.replicate (if condition.isOn id then 1 else 0) rule)) := by
  cases condition with
  | start => simp [indexCondition, Rules.ConditionKind.isOn]
  | standard input =>
    by_cases h : input.id = id
    · have hne : id.isEmpty = false := by simpa using hid
      simp only [indexCondition, Rules.ConditionKind.isOn, h, hne, decide_true, if_true, Bool.false_eq_true,
        if_false]
      exact HMap.lookup_modify _ _ _
    · simp only [indexCondition, Rules.ConditionKind.isOn, h, decide_false]
      split
      · simp
      · rw [HMap.lookup_modify_ne _ _ (Ne.symm h)]
        simp

theorem lookup_indexRule (hid : id ≠ "") :
    (rule.conditions.foldl (indexCondition rule) map).lookup id =
      (map.lookup id).map (·.push (List.replicate (rule.standardOn id) rule)) := by
  unfold Rules.Rule.standardOn
  generalize rule.conditions = conditions
  induction conditions generalizing map with
  | nil => simp
  | cons condition conditions ih =>
    rw [List.foldl_cons, ih, lookup_indexCondition hid, Option.map_map]
    congr 1
    funext context
    rw [Function.comp, push_push, ← List.replicate_add, List.countP_cons, Nat.add_comm]

theorem lookup_indexRules (hid : id ≠ "") (rules : List Rules.Rule) :
    (rules.foldl (fun map rule => rule.conditions.foldl (indexCondition rule) map) map).lookup id =
      (map.lookup id).map (·.push (rules.flatMap fun rule => List.replicate (rule.standardOn id) rule)) := by
  induction rules generalizing map with
  | nil => simp
  | cons rule rules ih =>
    rw [List.foldl_cons, ih, lookup_indexRule hid, Option.map_map, List.flatMap_cons]
    congr 1
    funext context
    rw [Function.comp, push_push]

end

/-- A context as the first loop makes it. -/
theorem lookup_insertInputs (io : IoConfig) (id : String) :
    (∀ context, (insertInputs io).lookup id = some context →
      context.input ∈ io.inputs ∧ context.input.id = id ∧ context.rules = [] ∧ context.value = none) ∧
    ((insertInputs io).lookup id = none ↔ ∀ input ∈ io.inputs, input.id ≠ id) := by
  have hlookup : (insertInputs io).lookup id =
      (latest (fun input : Input => decide (input.id = id)) io.inputs).map fun input => ⟨input, [], none⟩ := by
    rw [insertInputs, HMap.lookup_foldl_insert, Finmap.lookup_empty, Option.or_none]
  rw [hlookup]
  constructor
  · intro context hc
    obtain ⟨input, hlatest, rfl⟩ := Option.map_eq_some_iff.1 hc
    obtain ⟨hmem, hid⟩ := mem_of_latest hlatest
    exact ⟨hmem, of_decide_eq_true hid, rfl, rfl⟩
  · rw [Option.map_eq_none_iff, latest_eq_none_iff]
    simp only [decide_eq_false_iff_not, ne_eq]

/-- **The index**: what is found under a configured input. -/
theorem lookup_makeInputContextMap (io : IoConfig) (rulesConfig : Rules.RulesConfig) {id : String}
    (hid : id ≠ "") (hin : ∃ input ∈ io.inputs, input.id = id) :
    ∃ context, (makeInputContextMap io rulesConfig).lookup id = some context ∧
      context.rules = indexOf rulesConfig id ∧ context.value = none := by
  obtain ⟨hsome, hnone⟩ := lookup_insertInputs io id
  cases hl : (insertInputs io).lookup id with
  | none =>
    obtain ⟨input, hi, he⟩ := hin
    exact absurd he (hnone.1 hl input hi)
  | some context =>
    obtain ⟨_, _, hr, hv⟩ := hsome context hl
    refine ⟨context.push (indexOf rulesConfig id), ?_, ?_, hv⟩
    · rw [makeInputContextMap, lookup_indexRules hid, hl]
      rfl
    · simp [InputSharedContext.push, hr]

/-! ## No context is missing -/

/-- Every input and output of the configuration has its context, with any value. -/
def Complete (io : IoConfig) (inputMap : InputSharedContextMap) (outputMap : OutputSharedContextMap) : Prop :=
  (∀ input ∈ io.inputs, input.id ∈ inputMap) ∧ ∀ output ∈ io.outputs, output.id ∈ outputMap

/-- Of several outputs with one id, the last. -/
theorem lookup_makeOutputContextMap (io : IoConfig) (id : String) : (makeOutputContextMap io).lookup id =
    (latest (fun output : Output => decide (output.id = id)) io.outputs).map fun output => ⟨output, none⟩ := by
  rw [makeOutputContextMap, HMap.lookup_foldl_insert, Finmap.lookup_empty, Option.or_none]

theorem value_makeOutputContextMap {io : IoConfig} {id : String} {context : OutputSharedContext}
    (h : (makeOutputContextMap io).lookup id = some context) : context.value = none := by
  rw [lookup_makeOutputContextMap] at h
  obtain ⟨output, _, rfl⟩ := Option.map_eq_some_iff.1 h
  rfl

theorem mem_makeOutputContextMap {io : IoConfig} {id : String} :
    id ∈ makeOutputContextMap io ↔ ∃ output ∈ io.outputs, output.id = id := by
  rw [← not_iff_not, ← Finmap.lookup_eq_none, lookup_makeOutputContextMap, Option.map_eq_none_iff, latest_eq_none_iff]
  simp only [decide_eq_false_iff_not, not_exists, not_and]

theorem mem_indexCondition {rule : Rules.Rule} {map : InputSharedContextMap} {id : String}
    (condition : Rules.ConditionKind) : id ∈ indexCondition rule map condition ↔ id ∈ map := by
  cases condition with
  | start => rfl
  | standard input =>
    simp only [indexCondition]
    split
    · rfl
    · exact HMap.mem_modify

/-- What entering one rule under one condition does not change, the whole index does not change. -/
theorem index_frame {β : Type} (f : InputSharedContextMap → β)
    (hf : ∀ rule map condition, f (indexCondition rule map condition) = f map) (io : IoConfig)
    (rulesConfig : Rules.RulesConfig) : f (makeInputContextMap io rulesConfig) = f (insertInputs io) := by
  have hrule : ∀ (rule : Rules.Rule) (conditions : List Rules.ConditionKind) (map : InputSharedContextMap),
      f (conditions.foldl (indexCondition rule) map) = f map := by
    intro rule conditions
    induction conditions with
    | nil =>
      intro map
      rfl
    | cons condition conditions ih =>
      intro map
      exact (ih _).trans (hf rule map condition)
  unfold makeInputContextMap
  generalize insertInputs io = map
  induction rulesConfig.rules generalizing map with
  | nil => rfl
  | cons rule rules ih => exact (ih _).trans (hrule rule rule.conditions map)

/-- Entering the rules adds no key and removes none. -/
theorem mem_makeInputContextMap {io : IoConfig} {rulesConfig : Rules.RulesConfig} {id : String} :
    id ∈ makeInputContextMap io rulesConfig ↔ id ∈ insertInputs io :=
  Iff.of_eq (index_frame (fun map => id ∈ map) (fun _ _ condition => propext (mem_indexCondition condition)) io
    rulesConfig)

/-- Nor does it change what a context has besides its rules. -/
theorem index_frame_context {β : Type} (f : InputSharedContext → β) (hf : ∀ context rules, f { context with rules } = f context)
    (io : IoConfig) (rulesConfig : Rules.RulesConfig) (id : String) :
    ((makeInputContextMap io rulesConfig).lookup id).map f = ((insertInputs io).lookup id).map f := by
  refine index_frame (fun map => (map.lookup id).map f) ?_ io rulesConfig
  intro rule map condition
  cases condition with
  | start => rfl
  | standard input =>
    simp only [indexCondition]
    split
    · rfl
    · rw [HMap.lookup_modify_eq]
      split
      · rename_i hid
        rw [hid, Option.map_map]
        congr 1
        funext context
        exact hf context _
      · rfl

theorem value_makeInputContextMap {io : IoConfig} {rulesConfig : Rules.RulesConfig} {id : String}
    {context : InputSharedContext} (h : (makeInputContextMap io rulesConfig).lookup id = some context) :
    context.value = none := by
  have hframe := index_frame_context (·.value) (fun _ _ => rfl) io rulesConfig id
  rw [h, Option.map_some] at hframe
  obtain ⟨first, hl, hv⟩ := Option.map_eq_some_iff.1 hframe.symm
  rw [← hv]
  exact ((lookup_insertInputs io id).1 first hl).2.2.2

/-- **`make_input_context_map`**: of several inputs with one id, the last. -/
theorem input_makeInputContextMap (io : IoConfig) (rulesConfig : Rules.RulesConfig) (id : String) :
    ((makeInputContextMap io rulesConfig).lookup id).map (·.input) =
      latest (fun input : Input => decide (input.id = id)) io.inputs := by
  rw [index_frame_context (·.input) (fun _ _ => rfl), insertInputs, HMap.lookup_foldl_insert, Finmap.lookup_empty,
    Option.or_none, Option.map_map]
  exact Option.map_id'

/-- The maps as they are made have no gaps. -/
theorem complete_make (io : IoConfig) (rulesConfig : Rules.RulesConfig) :
    Complete io (makeInputContextMap io rulesConfig) (makeOutputContextMap io) := by
  constructor
  · intro input hi
    rw [mem_makeInputContextMap]
    by_contra hn
    exact (lookup_insertInputs io input.id).2.1 (Finmap.lookup_eq_none.2 hn) input hi rfl
  · intro output ho
    exact mem_makeOutputContextMap.2 ⟨output, ho, rfl⟩

end Calaos
