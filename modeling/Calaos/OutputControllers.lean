import Calaos.IoContext
import Calaos.History
import Calaos.Runs
import Mathlib.Logic.Function.Basic
/-!
# Which controller gets which output (core/src/io_context.rs, `run_output_controllers`)

| here | there |
| --- | --- |
| `Parsers`                     | `io.host.parse()` and `io.port.parse()`, as given functions |
| `OutputControllerConfig`      | `OutputControllerConfig`, with `SocketAddr` |
| `outputConfig`                | the `match &output.kind` of `make_output_controller_map`; `none` is `continue` |
| `appendMap`, `makeOutputControllerMap` | `append_map`, `make_output_controller_map` |
| `filterOutput`                | `filter_output` |
| `launchController`, `launch`  | the loop of `run_output_controllers`; a channel is the position of its controller |
| `Label`, `step`               | `handle_rx`, and the controllers at the other ends of the channels |

`make_output_controller_map` returns a hash map, so the order in which the controllers are made is an
argument, any list that enumerates the configurations.
-/
namespace Calaos.OutputControllers

open Runs History

/-- `SocketAddr`. -/
structure SocketAddr (Ip : Type) where
  ip : Ip
  port : UInt16
deriving DecidableEq

/-- `enum OutputControllerConfig`. -/
inductive OutputControllerConfig (Ip : Type) where
  | wago (remoteAddr : SocketAddr Ip)
deriving DecidableEq

/-- The two ways text is parsed. -/
structure Parsers (Ip : Type) where
  ip : String → Option Ip
  port : String → Option UInt16

section
variable {Ip : Type} [DecidableEq Ip] (parse : Parsers Ip)

/-- The address that a host and a port give. -/
def wagoConfig (host port : String) : Option (OutputControllerConfig Ip) := do
  let ip ← parse.ip host
  let port ← parse.port port
  return .wago ⟨ip, port⟩

/-- The controller that an output of this kind belongs to. -/
def outputConfig : OutputKind → Option (OutputControllerConfig Ip)
  | .woDigital io => wagoConfig parse io.host io.port
  | .woShutter io => wagoConfig parse io.host io.port
  | _ => none

/-- `append_map`. -/
def appendMap {κ : Type} [DecidableEq κ] (config : κ) (map : HMap κ (List String)) (id : String) :
    HMap κ (List String) :=
  match map.lookup config with
  | some _ => map.modify config fun ids => ids ++ [id]
  | none => map.insert config [id]

/-- `make_output_controller_map`. -/
def makeOutputControllerMap (io : IoConfig) : HMap (OutputControllerConfig Ip) (List String) :=
  io.outputs.foldl (fun map output =>
    match outputConfig parse output.kind with
    | some config => appendMap config map output.id
    | none => map) ∅

/-- `filter_output`. -/
def filterOutput (outputMap : OutputSharedContextMap) (ids : List String) : OutputContextMap :=
  ids.foldl (fun res id =>
    match outputMap.lookup id with
    | some context => res.insert id ⟨context.output, context.value⟩
    | none => res) ∅

/-- What the loop of `run_output_controllers` makes: the controllers with their maps, and `reverse_map`. -/
structure Launched (Ip : Type) where
  instances : List (OutputControllerConfig Ip × OutputContextMap)
  reverseMap : HMap String Nat

/-- The body of the loop, for one entry of the map. -/
def launchController (outputMap : OutputSharedContextMap)
    (controllers : HMap (OutputControllerConfig Ip) (List String)) (launched : Launched Ip)
    (config : OutputControllerConfig Ip) : Launched Ip :=
  match controllers.lookup config with
  | some ids =>
    { instances := launched.instances ++ [(config, filterOutput outputMap ids)]
      reverseMap := ids.foldl (fun map id => map.insert id launched.instances.length) launched.reverseMap }
  | none => launched

/-- The loop, over the entries in the order of `configs`. -/
def launch (io : IoConfig) (outputMap : OutputSharedContextMap) (configs : List (OutputControllerConfig Ip)) :
    Launched Ip :=
  configs.foldl (launchController outputMap (makeOutputControllerMap parse io)) ⟨[], ∅⟩

end

/-! ## Dispatch -/

/-- `CHANNEL_CAPACITY`. -/
def channelCapacity : Nat := 10000

/-- Where `handle_rx` waits: for a command, or for room in the channel of a controller. `done` is the end
by a closed `rx`, `stopped` the end by a controller that is gone. -/
inductive Pc where
  | recv
  | send (channel : Nat) (ioData : IODataAction)
  | done
  | stopped
deriving DecidableEq

/-- What waits in each channel, and what its controller has received from it. -/
structure St where
  pc : Pc
  queues : Nat → List IODataAction
  taken : Nat → List IODataAction

/-- What happens next: `handle_rx` is given a command, has sent one, or finds the channel closed; or a
controller takes the next command from its channel. -/
inductive Label where
  | recv (ioDataOpt : Option IODataAction)
  | sent
  | sendFails
  | take (channel : Nat)
deriving DecidableEq

/-- One step. `tx.send(..).await` waits while the channel is full. -/
def step (reverseMap : HMap String Nat) (s : St) : Label → Option St
  | .recv ioDataOpt =>
    match s.pc, ioDataOpt with
    | .recv, none => some { s with pc := .done }
    | .recv, some ioData =>
      match reverseMap.lookup ioData.id with
      | some channel => some { s with pc := .send channel ioData }
      | none => some s
    | _, _ => none
  | .sent =>
    match s.pc with
    | .send channel ioData =>
      if (s.queues channel).length < channelCapacity then
        some { s with
          pc := .recv
          queues := Function.update s.queues channel (s.queues channel ++ [ioData]) }
      else none
    | _ => none
  | .sendFails =>
    match s.pc with
    | .send _ _ => some { s with pc := .stopped }
    | _ => none
  | .take channel =>
    match s.queues channel with
    | ioData :: rest =>
      some { s with
        queues := Function.update s.queues channel rest
        taken := Function.update s.taken channel (s.taken channel ++ [ioData]) }
    | [] => none

/-- Nothing received yet. -/
def init : St := ⟨.recv, fun _ => [], fun _ => []⟩

section
variable {reverseMap : HMap String Nat} {s s' : St} {l : Label}

variable (reverseMap s) in
/-- Every way to take a step. -/
inductive Step : Label → St → Prop where
  | ended (hp : s.pc = .recv) : Step (.recv none) { s with pc := .done }
  | dispatched (ioData : IODataAction) (channel : Nat) (hp : s.pc = .recv)
    (hc : reverseMap.lookup ioData.id = some channel) :
    Step (.recv (some ioData)) { s with pc := .send channel ioData }
  | unknown (ioData : IODataAction) (hp : s.pc = .recv) (hc : reverseMap.lookup ioData.id = none) :
    Step (.recv (some ioData)) s
  | sent (channel : Nat) (ioData : IODataAction) (hp : s.pc = .send channel ioData)
    (hroom : (s.queues channel).length < channelCapacity) :
    Step .sent { s with
      pc := .recv
      queues := Function.update s.queues channel (s.queues channel ++ [ioData]) }
  | sendFails (channel : Nat) (ioData : IODataAction) (hp : s.pc = .send channel ioData) :
    Step .sendFails { s with pc := .stopped }
  | take (channel : Nat) (ioData : IODataAction) (rest : List IODataAction)
    (hq : s.queues channel = ioData :: rest) :
    Step (.take channel) { s with
      queues := Function.update s.queues channel rest
      taken := Function.update s.taken channel (s.taken channel ++ [ioData]) }

theorem Step.of_step (h : step reverseMap s l = some s') : Step reverseMap s l s' := by
  cases l with
  | recv ioDataOpt =>
    simp only [step] at h
    split at h
    · rename_i hp
      cases h
      exact .ended hp
    · rename_i ioData hp
      split at h
      · rename_i channel hc
        cases h
        exact .dispatched ioData channel hp hc
      · rename_i hc
        cases h
        exact .unknown ioData hp hc
    · cases h
  | sent =>
    simp only [step] at h
    split at h
    · rename_i channel ioData hp
      split at h
      · rename_i hroom
        cases h
        exact .sent channel ioData hp hroom
      · cases h
    · cases h
  | sendFails =>
    simp only [step] at h
    split at h
    · rename_i channel ioData hp
      cases h
      exact .sendFails channel ioData hp
    · cases h
  | take channel =>
    simp only [step] at h
    split at h
    · rename_i ioData rest hq
      cases h
      exact .take channel ioData rest hq
    · cases h

end

/-- The commands that `handle_rx` has received. -/
def commands (past : List Label) : List IODataAction :=
  past.filterMap fun
    | .recv (some ioData) => some ioData
    | _ => none

/-! ## Grouping by address -/

section
variable {Ip : Type} [DecidableEq Ip] (parse : Parsers Ip)

/-- The ids of the outputs that belong to a controller, in the order of the configuration. -/
def idsOf (outputs : List Output) (config : OutputControllerConfig Ip) : List String :=
  (outputs.filter fun output => decide (outputConfig parse output.kind = some config)).map (·.id)

/-- `ids`, unless there are none. -/
def nonEmpty (ids : List String) : Option (List String) := if ids = [] then none else some ids

theorem lookup_appendMap {κ : Type} [DecidableEq κ] (config config' : κ) (map : HMap κ (List String)) (id : String) :
    (appendMap config map id).lookup config' =
      if config' = config then some ((map.lookup config).getD [] ++ [id]) else map.lookup config' := by
  unfold appendMap
  by_cases h : config' = config
  · subst h
    rw [if_pos rfl]
    cases hl : map.lookup config' with
    | some ids => simp [HMap.lookup_modify, hl]
    | none => simp [Finmap.lookup_insert]
  · rw [if_neg h]
    cases map.lookup config with
    | some ids => exact HMap.lookup_modify_ne _ _ h
    | none => exact Finmap.lookup_insert_of_ne _ h

/-- Appending the key of each entry to the list of its controller. -/
theorem lookup_foldl_appendMap {α κ : Type} [DecidableEq κ] (config : α → Option κ) (key : α → String) (as : List α)
    (k : κ) :
    (as.foldl (fun map a =>
      match config a with
      | some config => appendMap config map (key a)
      | none => map) ∅).lookup k = nonEmpty ((as.filter fun a => decide (config a = some k)).map key) := by
  induction as using List.reverseRecOn with
  | nil => rfl
  | append_singleton as a ih =>
    rw [List.foldl_append, List.foldl_cons, List.foldl_nil]
    cases hc : config a with
    | none => simpa [hc] using ih
    | some k' =>
      simp only
      rw [lookup_appendMap]
      by_cases h : k = k'
      · subst h
        have hids : ∀ ids : List String, (nonEmpty ids).getD [] = ids := by
          intro ids
          unfold nonEmpty
          split
          · rename_i hnil
            rw [hnil]
            rfl
          · rfl
        rw [if_pos rfl, ih, hids]
        simp [nonEmpty, hc]
      · rw [if_neg h, ih]
        simp [hc, Ne.symm h]

/-- **`make_output_controller_map`**: a controller for each address, with all its ids. -/
theorem lookup_makeOutputControllerMap (io : IoConfig) (config : OutputControllerConfig Ip) :
    (makeOutputControllerMap parse io).lookup config = nonEmpty (idsOf parse io.outputs config) := by
  refine Eq.trans ?_ (lookup_foldl_appendMap (fun output => outputConfig parse output.kind) (·.id) io.outputs config)
  unfold makeOutputControllerMap
  congr 2
  funext map output
  cases outputConfig parse output.kind <;> rfl

/-- **`filter_output`**. -/
theorem lookup_filterOutput (outputMap : OutputSharedContextMap) (ids : List String) (id : String) :
    (filterOutput outputMap ids).lookup id =
      if id ∈ ids then (outputMap.lookup id).map fun context => ⟨context.output, context.value⟩ else none := by
  refine Eq.trans ?_
    (HMap.lookup_foldl_select outputMap (fun context => OutputContext.mk context.output context.value) ids id)
  unfold filterOutput
  congr 2
  funext res id
  cases outputMap.lookup id <;> rfl

/-- The map has the outputs of the configuration, with any values. -/
def OutputsOf (io : IoConfig) (outputMap : OutputSharedContextMap) : Prop :=
  ∀ id, (outputMap.lookup id).map (·.output) = ((makeOutputContextMap io).lookup id).map (·.output)

/-- The last output of the configuration with this id. -/
def lastOutput (io : IoConfig) (id : String) : Option Output :=
  latest (fun output : Output => decide (output.id = id)) io.outputs

/-- **`make_output_context_map`**: of several outputs with one id, the last. -/
theorem lookup_makeOutputContextMap (io : IoConfig) (id : String) :
    ((makeOutputContextMap io).lookup id).map (·.output) = lastOutput io id := by
  rw [Calaos.lookup_makeOutputContextMap, Option.map_map]
  exact Option.map_id'

/-! ## What is launched -/

variable {parse} {io : IoConfig} {outputMap : OutputSharedContextMap} {configs : List (OutputControllerConfig Ip)}

/-- A configuration of which the map has a key. -/
theorem mem_makeOutputControllerMap {config : OutputControllerConfig Ip} :
    config ∈ makeOutputControllerMap parse io ↔ idsOf parse io.outputs config ≠ [] := by
  rw [← Finmap.lookup_isSome, lookup_makeOutputControllerMap]
  unfold nonEmpty
  split <;> simp [*]

theorem lookup_of_enumerates (h : HMap.Enumerates configs (makeOutputControllerMap parse io))
    {config : OutputControllerConfig Ip} (hc : config ∈ configs) :
    (makeOutputControllerMap parse io).lookup config = some (idsOf parse io.outputs config) := by
  have hmem := mem_makeOutputControllerMap.1 ((h.2 config).1 hc)
  rw [lookup_makeOutputControllerMap, nonEmpty, if_neg hmem]

/-- Writing the same channel under many ids. -/
theorem lookup_foldl_insert (ids : List String) (channel : Nat) (map : HMap String Nat) (id : String) :
    (ids.foldl (fun map id => map.insert id channel) map).lookup id =
      if id ∈ ids then some channel else map.lookup id := by
  rw [HMap.lookup_foldl_insert (fun id => id)]
  cases hl : latest (fun id' => decide (id' = id)) ids with
  | none =>
    have hno : id ∉ ids := fun h => by simpa using latest_eq_none_iff.1 hl id h
    rw [if_neg hno]
    rfl
  | some id' =>
    obtain ⟨hmem, he⟩ := mem_of_latest hl
    rw [← of_decide_eq_true he, if_pos hmem]
    rfl

variable (outputMap) in
/-- **The loop**: one controller for each configuration, and every id leads to the last controller that
has it. -/
theorem launch_spec (h : HMap.Enumerates configs (makeOutputControllerMap parse io)) :
    (launch parse io outputMap configs).instances =
      configs.map (fun config => (config, filterOutput outputMap (idsOf parse io.outputs config))) ∧
    ∀ id, (∀ channel, (launch parse io outputMap configs).reverseMap.lookup id = some channel →
        ∃ config, configs[channel]? = some config ∧ id ∈ idsOf parse io.outputs config) ∧
      ((launch parse io outputMap configs).reverseMap.lookup id = none →
        ∀ config ∈ configs, id ∉ idsOf parse io.outputs config) := by
  have hlook : ∀ config ∈ configs, (makeOutputControllerMap parse io).lookup config =
      some (idsOf parse io.outputs config) := fun config hc => lookup_of_enumerates h hc
  clear h
  unfold launch
  induction configs using List.reverseRecOn with
  | nil => simp
  | append_singleton configs config ih =>
    rw [List.foldl_append, List.foldl_cons, List.foldl_nil]
    obtain ⟨hinst, hrev⟩ := ih fun config' hc => hlook config' (List.mem_append_left _ hc)
    generalize hl : configs.foldl (launchController outputMap (makeOutputControllerMap parse io)) ⟨[], ∅⟩ = launched
      at hinst hrev
    have hlen : launched.instances.length = configs.length := by rw [hinst, List.length_map]
    unfold launchController
    rw [hlook config (by simp)]
    refine ⟨by simp [hinst], ?_⟩
    intro id
    simp only
    rw [lookup_foldl_insert, hlen]
    by_cases hmem : id ∈ idsOf parse io.outputs config
    · rw [if_pos hmem]
      constructor
      · rintro channel ⟨⟩
        exact ⟨config, by simp, hmem⟩
      · intro hnone
        cases hnone
    · rw [if_neg hmem]
      constructor
      · intro channel hc
        obtain ⟨config', hget, hin⟩ := (hrev id).1 channel hc
        have hlt : channel < configs.length := (List.getElem?_eq_some_iff.1 hget).1
        exact ⟨config', by rw [List.getElem?_append_left hlt]; exact hget, hin⟩
      · intro hnone config' hin
        rcases List.mem_append.1 hin with hin | hin
        · exact (hrev id).2 hnone config' hin
        · rw [List.mem_singleton.1 hin]
          exact hmem

end

end Calaos.OutputControllers
