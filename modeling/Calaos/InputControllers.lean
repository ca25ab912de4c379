import Calaos.OutputControllers
import Calaos.TimeController
/-!
# The input side (core/src/io_context.rs, `run_input_controllers`, core/src/io/wago_controller.rs)

| here | there |
| --- | --- |
| `parseIp`                | `io.host.parse()`, as a given function |
| `WagoConfig`, `InputControllerConfig` | `wago_controller::Config`, `InputControllerConfig` |
| `inputConfig`            | the `match &input.kind` of `make_input_controller_map`; `none` is `continue` |
| `makeInputControllerMap`, `filterInput` | `make_input_controller_map`, `filter_input` |
| `printInfo`              | the end of `print_info`, once a datagram is there; `false` is the error of `from_utf8` |
| `start`                  | the loop of `run_input_controllers`, and `select_all`, which panics on an empty list |
| `Label`, `step`          | one of the controllers does its next operation |

The controllers go on side by side, in any order. The first that ends, ends them all, and so does a panic.
-/
namespace Calaos.InputControllers

open Runs History Calendar
open OutputControllers (SocketAddr appendMap nonEmpty lookup_foldl_appendMap)
open TimeController (iteration StandsFor Succeeds succeeds_iteration)

/-! ## Which controllers there are -/

/-- `wago_controller::Config`. -/
structure WagoConfig (Ip : Type) where
  remoteAddr : SocketAddr Ip
  heartbeatPeriod : Duration
deriving DecidableEq

/-- `enum InputControllerConfig`. -/
inductive InputControllerConfig (Ip : Type) where
  | wago (config : WagoConfig Ip)
  | time
deriving DecidableEq

section
variable {Ip : Type} [DecidableEq Ip] (parseIp : String → Option Ip)

/-- The controller that an input of this kind belongs to. -/
def inputConfig : InputKind → Option (InputControllerConfig Ip)
  | .wiDigitalBP io | .wiDigitalLong io | .wiDigitalTriple io =>
    (parseIp io.host).map fun ip => .wago ⟨⟨ip, 4646⟩, .fromSecs 2⟩
  | .inputTime _ => some .time
  | .scenario => none
  | .mySensorsInputAnalog | .mySensorsInputTemp => none

/-- `make_input_controller_map`. -/
def makeInputControllerMap (io : IoConfig) : HMap (InputControllerConfig Ip) (List String) :=
  io.inputs.foldl (fun map input =>
    match inputConfig parseIp input.kind with
    | some config => appendMap config map input.id
    | none => map) ∅

/-- `filter_input`. -/
def filterInput (inputMap : InputSharedContextMap) (ids : List String) : InputContextMap :=
  ids.foldl (fun res id =>
    match inputMap.lookup id with
    | some entry => res.insert id ⟨entry.input, entry.value⟩
    | none => res) ∅

/-! ## What they do -/

/-- How far a Wago controller is: it has no socket yet, it waits for the answer to `WAGO_GET_INFO`, or it sends
heartbeats. -/
inductive Phase where
  | connecting
  | asking
  | beating
deriving DecidableEq

/-- What has become of `run_input_controllers`. -/
inductive Status where
  | running
  | panicked (panic : Panic)
  | returned
deriving DecidableEq

/-- The controllers with their maps, and how far each is. -/
structure St (Ip : Type) where
  instances : List (InputControllerConfig Ip × InputContextMap)
  phase : Nat → Phase
  status : Status

/-- The loop, over the entries of the map in the order of `configs`. -/
def start (io : IoConfig) (inputMap : InputSharedContextMap) (configs : List (InputControllerConfig Ip)) : St Ip :=
  let instances := configs.filterMap fun config =>
    ((makeInputControllerMap parseIp io).lookup config).map fun ids => (config, filterInput inputMap ids)
  ⟨instances, fun _ => .connecting, if instances.isEmpty then .panicked .selectAll else .running⟩

/-- The next operation of a controller: the time controller wakes up, with the order in which it visits its inputs
and the time it is; a Wago controller has bound and connected its socket and asked for the info, has received a
datagram, or has sent a heartbeat; or an operation on its socket has failed. -/
inductive Label where
  | wakes (i : Nat) (order : List String) (now : Int)
  | asked (i : Nat)
  | received (i : Nat) (datagram : List UInt8)
  | beat (i : Nat)
  | failed (i : Nat)
deriving DecidableEq

/-- The size of the buffer of `print_info`. -/
def bufferSize : Nat := 100

/-- What is left of `print_info`, once a datagram has come. -/
def printInfo (datagram : List UInt8) : Except Panic Bool :=
  let data := datagram.take bufferSize
  if data.length = 0 then .error .lenSlice
  else .ok (String.fromUTF8? ⟨(data.take (data.length - 1)).toArray⟩).isSome

/-- The controller is one of a Wago and as far as this. -/
def St.isAt (s : St Ip) (i : Nat) (phase : Phase) : Bool :=
  match s.instances[i]? with
  | some (.wago _, _) => decide (s.phase i = phase)
  | _ => false

/-- One step. -/
def step (zone : Zone) (s : St Ip) : Label → Option (St Ip)
  | .wakes i order now =>
    match s.status, s.instances[i]? with
    | .running, some (.time, inputMap) =>
      if HMap.Enumerates order inputMap then
        match iteration zone inputMap order now with
        | .ok _ => some s
        | .error panic => some { s with status := .panicked panic }
      else none
    | _, _ => none
  | .asked i =>
    if s.status = .running ∧ s.isAt i .connecting then some { s with phase := Function.update s.phase i .asking }
    else none
  | .received i datagram =>
    if s.status = .running ∧ s.isAt i .asking then
      match printInfo datagram with
      | .ok true => some { s with phase := Function.update s.phase i .beating }
      | .ok false => some { s with status := .returned }
      | .error panic => some { s with status := .panicked panic }
    else none
  | .beat i => if s.status = .running ∧ s.isAt i .beating then some s else none
  | .failed i =>
    if s.status = .running ∧ (s.isAt i .connecting ∨ s.isAt i .asking ∨ s.isAt i .beating) then
      some { s with status := .returned }
    else none

end

/-! ## The maps -/

section
variable {Ip : Type} [DecidableEq Ip] {parseIp : String → Option Ip} {io : IoConfig} {inputMap : InputSharedContextMap}
  {configs : List (InputControllerConfig Ip)} {config : InputControllerConfig Ip} {id : String}

variable (parseIp) in
/-- The ids of the inputs that belong to a controller. -/
def idsOf (inputs : List Input) (config : InputControllerConfig Ip) : List String :=
  (inputs.filter fun input => decide (inputConfig parseIp input.kind = some config)).map (·.id)

/-- **`make_input_controller_map`**. -/
theorem lookup_makeInputControllerMap : (makeInputControllerMap parseIp io).lookup config =
    nonEmpty (idsOf parseIp io.inputs config) := by
  refine Eq.trans ?_ (lookup_foldl_appendMap (fun input => inputConfig parseIp input.kind) (·.id) io.inputs config)
  unfold makeInputControllerMap
  congr 2
  funext map input
  cases inputConfig parseIp input.kind <;> rfl

/-- **`filter_input`**. -/
theorem lookup_filterInput (ids : List String) : (filterInput inputMap ids).lookup id =
    if id ∈ ids then (inputMap.lookup id).map fun entry => ⟨entry.input, entry.value⟩ else none := by
  refine Eq.trans ?_
    (HMap.lookup_foldl_select inputMap (fun entry => InputContext.mk entry.input entry.value) ids id)
  unfold filterInput
  congr 2
  funext res id
  cases inputMap.lookup id <;> rfl

theorem mem_makeInputControllerMap : config ∈ makeInputControllerMap parseIp io ↔
    ∃ input ∈ io.inputs, inputConfig parseIp input.kind = some config := by
  rw [← Finmap.lookup_isSome, lookup_makeInputControllerMap]
  unfold nonEmpty
  split
  · rename_i hnil
    simpa [idsOf] using hnil
  · rename_i hne
    simpa [idsOf] using hne

/-- One controller for each configuration. -/
theorem instances_start (ho : HMap.Enumerates configs (makeInputControllerMap parseIp io)) :
    (start parseIp io inputMap configs).instances =
      configs.map fun config => (config, filterInput inputMap (idsOf parseIp io.inputs config)) := by
  unfold start
  rw [← List.filterMap_eq_map]
  refine List.filterMap_congr fun config hc => ?_
  have hmem := mem_makeInputControllerMap.1 ((ho.2 config).1 hc)
  have hne : idsOf parseIp io.inputs config ≠ [] := by simpa [idsOf] using hmem
  rw [lookup_makeInputControllerMap, nonEmpty, if_neg hne]
  rfl

/-! ## When there is no panic -/

variable (parseIp io) in
/-- Some input makes a controller start. -/
def Starts : Prop := ∃ input ∈ io.inputs, (inputConfig parseIp input.kind).isSome

/-- The last input of the configuration with this id. -/
def lastInput (io : IoConfig) (id : String) : Option Input :=
  latest (fun input : Input => decide (input.id = id)) io.inputs

/-- The map has the inputs of the configuration, with any rules and values. -/
def InputsOf (io : IoConfig) (inputMap : InputSharedContextMap) : Prop :=
  ∀ id, (inputMap.lookup id).map (·.input) = lastInput io id

theorem inputsOf_make (io : IoConfig) (rulesConfig : Rules.RulesConfig) :
    InputsOf io (makeInputContextMap io rulesConfig) := input_makeInputContextMap io rulesConfig

/-- Under the id of each time input there is a time input, and its date stands for one instant. -/
def DatesStand (zone : Zone) (io : IoConfig) (now : Int) : Prop :=
  ∀ input ∈ io.inputs, (∃ date, input.kind = .inputTime date) →
    ∃ last date t, lastInput io input.id = some last ∧ last.kind = .inputTime date ∧ StandsFor zone now date t

/-- What a step must not bring with it. -/
def Harmless (zone : Zone) (io : IoConfig) : Label → Prop
  | .wakes _ _ now => DatesStand zone io now
  | .received _ datagram => datagram ≠ []
  | _ => True

def St.Panicked (s : St Ip) : Prop := ∃ panic, s.status = .panicked panic

theorem start_panicked (ho : HMap.Enumerates configs (makeInputControllerMap parseIp io)) :
    ¬ (start parseIp io inputMap configs).Panicked ↔ Starts parseIp io := by
  have hnil : (start parseIp io inputMap configs).instances.isEmpty = true ↔ configs = [] := by
    rw [instances_start ho]
    simp
  have hstatus : (start parseIp io inputMap configs).status =
      if (start parseIp io inputMap configs).instances.isEmpty then .panicked .selectAll else .running := rfl
  unfold St.Panicked Starts
  rw [hstatus]
  constructor
  · intro hno
    by_cases hc : configs = []
    · rw [if_pos (hnil.2 hc)] at hno
      exact absurd ⟨_, rfl⟩ hno
    · obtain ⟨config, hconfig⟩ := List.exists_mem_of_ne_nil _ hc
      obtain ⟨input, hi, hk⟩ := mem_makeInputControllerMap.1 ((ho.2 config).1 hconfig)
      exact ⟨input, hi, by rw [hk]; rfl⟩
  · rintro ⟨input, hi, hk⟩
    obtain ⟨config, hconfig⟩ := Option.isSome_iff_exists.1 hk
    have hmem : config ∈ configs := (ho.2 config).2 (mem_makeInputControllerMap.2 ⟨input, hi, hconfig⟩)
    rw [if_neg fun h => List.ne_nil_of_mem hmem (hnil.1 h)]
    rintro ⟨panic, h⟩
    cases h

theorem mem_idsOf_time : id ∈ idsOf parseIp io.inputs .time ↔
    ∃ input ∈ io.inputs, (∃ date, input.kind = .inputTime date) ∧ input.id = id := by
  have hkind : ∀ kind : InputKind, inputConfig parseIp kind = some .time ↔ ∃ date, kind = .inputTime date := by
    intro kind
    cases kind <;> simp [inputConfig]
  unfold idsOf
  simp only [List.mem_map, List.mem_filter, decide_eq_true_eq, hkind]
  constructor
  · rintro ⟨input, ⟨hi, hk⟩, hid⟩
    exact ⟨input, hi, hk, hid⟩
  · rintro ⟨input, hi, hk, hid⟩
    exact ⟨input, ⟨hi, hk⟩, hid⟩

/-- A turn of the time controller. -/
theorem succeeds_wakes {zone : Zone} {order : List String} {now : Int} (hmap : InputsOf io inputMap)
    (ho : HMap.Enumerates order (filterInput inputMap (idsOf parseIp io.inputs .time))) :
    Succeeds (iteration zone (filterInput inputMap (idsOf parseIp io.inputs .time)) order now) ↔
      DatesStand zone io now := by
  rw [succeeds_iteration]
  constructor
  · intro h input hi hk
    have hid : input.id ∈ idsOf parseIp io.inputs .time := mem_idsOf_time.2 ⟨input, hi, hk, rfl⟩
    have hsome : ∃ last, lastInput io input.id = some last := by
      cases hl : lastInput io input.id with
      | some last => exact ⟨last, rfl⟩
      | none => simpa using latest_eq_none_iff.1 hl input hi
    obtain ⟨last, hlast⟩ := hsome
    obtain ⟨entry, hentry, hinput⟩ := Option.map_eq_some_iff.1 ((hmap input.id).trans hlast)
    have hl : (filterInput inputMap (idsOf parseIp io.inputs .time)).lookup input.id =
        some ⟨entry.input, entry.value⟩ := by
      rw [lookup_filterInput, if_pos hid, hentry, Option.map_some]
    have hmem : input.id ∈ order := (ho.2 _).2 (Finmap.mem_of_lookup_eq_some hl)
    obtain ⟨date, hkind, t, ht⟩ := h _ hmem _ hl
    exact ⟨last, date, t, hlast, by rw [← hinput]; exact hkind, ht⟩
  · intro h id hid context hl
    rw [lookup_filterInput] at hl
    by_cases hin : id ∈ idsOf parseIp io.inputs .time
    · rw [if_pos hin] at hl
      obtain ⟨entry, hentry, rfl⟩ := Option.map_eq_some_iff.1 hl
      obtain ⟨input, hi, hk, rfl⟩ := mem_idsOf_time.1 hin
      obtain ⟨last, date, t, hlast, hkind, ht⟩ := h input hi hk
      rw [← hmap, hentry] at hlast
      cases hlast
      exact ⟨date, hkind, t, ht⟩
    · rw [if_neg hin] at hl
      cases hl

/-- The slice leaves out the last byte, and there must be one. -/
theorem succeeds_printInfo {datagram : List UInt8} : Succeeds (printInfo datagram) ↔ datagram ≠ [] := by
  unfold printInfo
  cases datagram with
  | nil => simp [Succeeds]
  | cons byte rest =>
    have hlen : ((byte :: rest).take bufferSize).length ≠ 0 := by simp [bufferSize]
    simp only [if_neg hlen]
    exact ⟨fun _ => List.cons_ne_nil _ _, fun _ => ⟨_, rfl⟩⟩

omit [DecidableEq Ip] in
theorem not_panicked_running {s : St Ip} (h : s.status = .running) : ¬ s.Panicked := by
  rintro ⟨panic, hp⟩
  rw [h] at hp
  cases hp

/-- **One step**: it panics exactly when it brings something harmful. -/
theorem step_harmless {zone : Zone} {s s' : St Ip} {l : Label} (hmap : InputsOf io inputMap)
    (hs : s.instances = configs.map fun config => (config, filterInput inputMap (idsOf parseIp io.inputs config)))
    (h : step zone s l = some s') :
    s.status = .running ∧ s'.instances = s.instances ∧ (¬ s'.Panicked ↔ Harmless zone io l) := by
  cases l with
  | wakes i order now =>
    simp only [step] at h
    split at h
    · rename_i map hstatus hi
      have hfilter : map = filterInput inputMap (idsOf parseIp io.inputs .time) := by
        rw [hs, List.getElem?_map] at hi
        obtain ⟨config, _, he⟩ := Option.map_eq_some_iff.1 hi
        cases he
        rfl
      subst hfilter
      split at h
      · rename_i horder
        have hturn : _ ↔ Harmless zone io (.wakes i order now) := succeeds_wakes hmap horder
        split at h
        · rename_i sleep hok
          cases h
          exact ⟨hstatus, rfl, fun _ => hturn.1 ⟨sleep, hok⟩, fun _ => not_panicked_running hstatus⟩
        · rename_i panic herr
          cases h
          refine ⟨hstatus, rfl, fun hno => absurd ⟨panic, rfl⟩ hno, fun hl => ?_⟩
          obtain ⟨sleep, hok⟩ := hturn.2 hl
          cases herr.symm.trans hok
      · cases h
    · cases h
  | received i datagram =>
    simp only [step] at h
    split at h
    · rename_i hat
      have hinfo : _ ↔ Harmless zone io (.received i datagram) := succeeds_printInfo
      split at h
      · rename_i hok
        cases h
        exact ⟨hat.1, rfl, fun _ => hinfo.1 ⟨true, hok⟩, fun _ => not_panicked_running hat.1⟩
      · rename_i hok
        cases h
        refine ⟨hat.1, rfl, fun _ => hinfo.1 ⟨false, hok⟩, ?_⟩
        rintro _ ⟨panic, hp⟩
        cases hp
      · rename_i panic herr
        cases h
        refine ⟨hat.1, rfl, fun hno => absurd ⟨panic, rfl⟩ hno, fun hl => ?_⟩
        obtain ⟨b, hok⟩ := hinfo.2 hl
        cases herr.symm.trans hok
    · cases h
  | asked i | beat i =>
    simp only [step] at h
    split at h
    · rename_i hat
      cases h
      exact ⟨hat.1, rfl, fun _ => trivial, fun _ => not_panicked_running hat.1⟩
    · cases h
  | failed i =>
    simp only [step] at h
    split at h
    · rename_i hat
      cases h
      refine ⟨hat.1, rfl, fun _ => trivial, ?_⟩
      rintro _ ⟨panic, hp⟩
      cases hp
    · cases h

/-- **The input side does not panic exactly when some controller starts, and at each turn of the time controller
every date stands for one instant, and no answer of a Wago is empty.** -/
theorem no_panic_iff {zone : Zone} {ls : List Label} {s : St Ip} (hmap : InputsOf io inputMap)
    (ho : HMap.Enumerates configs (makeInputControllerMap parseIp io))
    (hr : run (step zone) (start parseIp io inputMap configs) ls = some s) :
    ¬ s.Panicked ↔ Starts parseIp io ∧ ∀ l ∈ ls, Harmless zone io l := by
  have hall : s.instances =
        configs.map (fun config => (config, filterInput inputMap (idsOf parseIp io.inputs config))) ∧
      (¬ s.Panicked ↔ Starts parseIp io ∧ ∀ l ∈ ls, Harmless zone io l) := by
    refine run_traced (step zone) (I := fun past t =>
      t.instances = configs.map (fun config => (config, filterInput inputMap (idsOf parseIp io.inputs config))) ∧
      (¬ t.Panicked ↔ Starts parseIp io ∧ ∀ l ∈ past, Harmless zone io l)) ?_ ?_ hr
    · rintro past t l t' ⟨hinst, hpast⟩ hstep
      obtain ⟨hrunning, hsame, hharm⟩ := step_harmless hmap hinst hstep
      obtain ⟨hstarts, hbefore⟩ := hpast.1 (not_panicked_running hrunning)
      refine ⟨hsame.trans hinst, ?_⟩
      rw [hharm]
      constructor
      · intro hl
        refine ⟨hstarts, fun l' hl' => ?_⟩
        rcases List.mem_append.1 hl' with hin | hin
        · exact hbefore l' hin
        · rw [List.mem_singleton.1 hin]
          exact hl
      · rintro ⟨_, hafter⟩
        exact hafter l (by simp)
    · refine ⟨instances_start ho, (start_panicked ho).trans ?_⟩
      simp
  exact hall.2

end

/-! ## Houses with few inputs -/

/-- A host whose name is an address. -/
def oneHost (host : String) : Option String := if host = "10.0.0.1" then some host else none

/-- A zone without clock changes, with the years that can be represented. -/
def utc : Zone := .fixed 0 (-262143) 262142

def input (id : String) (kind : InputKind) : Input := ⟨id, id, "", kind, "", true, true⟩

/-- At seven, every day. -/
def alarm : Input := input "alarm" (.inputTime ⟨none, none, none, 7, 0, 0⟩)

/-- At eight, on the 31st of every month. -/
def payday : Input := input "payday" (.inputTime ⟨none, none, some 31, 8, 0, 0⟩)

def button : Input := input "button" (.wiDigitalBP ⟨"10.0.0.1", "502", 1⟩)

/-- Its controller. -/
def buttonConfig : InputControllerConfig String := .wago ⟨⟨"10.0.0.1", 4646⟩, .fromSecs 2⟩

def house (inputs : List Input) : IoConfig := ⟨⟨[⟨"Hall", "hall", inputs, [], 0⟩]⟩⟩

/-- `run_input_controllers` for a house without rules. -/
def began (inputs : List Input) (configs : List (InputControllerConfig String)) : St String :=
  start oneHost (house inputs) (makeInputContextMap (house inputs) ⟨[]⟩) configs

/-- The 15th of January 2024 at noon, in seconds. -/
def january : Int := 1705320000 * second

/-- The start of the 1st of February 2024. -/
def february : Int := 1706745600 * second

/-- What becomes of a run, if the controllers are started in a possible order. -/
def fate (inputs : List Input) (configs : List (InputControllerConfig String)) (ls : List Label) : Option Status :=
  if HMap.Enumerates configs (makeInputControllerMap oneHost (house inputs)) then
    (run (step utc) (began inputs configs) ls).map (·.status)
  else none

/-- No input; an id that a later input of another kind has taken over; a day that is there in January and not in
February; and an empty answer. -/
theorem input_side_panics :
    fate [] [] [] = some (.panicked .selectAll) ∧
    fate [alarm, input "alarm" .scenario] [.time] [.wakes 0 ["alarm"] january] = some (.panicked .unwrapDate) ∧
    fate [payday] [.time] [.wakes 0 ["payday"] january] = some .running ∧
    fate [payday] [.time] [.wakes 0 ["payday"] january, .wakes 0 ["payday"] february] =
      some (.panicked .localUnwrap) ∧
    fate [button] [buttonConfig] [.asked 0, .received 0 []] = some (.panicked .lenSlice) := by
  decide +kernel

/-- Two controllers go on into February. -/
def quiet : List Label :=
  [.wakes 0 ["alarm"] january, .asked 1, .received 1 [0], .wakes 0 ["alarm"] february, .beat 1]

theorem no_panic_alarm : ∃ s, run (step utc) (began [alarm, button] [.time, buttonConfig]) quiet = some s ∧
    ¬ s.Panicked ∧ Starts oneHost (house [alarm, button]) ∧
    ∀ l ∈ quiet, Harmless utc (house [alarm, button]) l := by
  have ho : HMap.Enumerates [.time, buttonConfig] (makeInputControllerMap oneHost (house [alarm, button])) := by
    decide +kernel
  have hfate : (run (step utc) (began [alarm, button] [.time, buttonConfig]) quiet).map (·.status) = some .running := by
    decide +kernel
  obtain ⟨s, hr, hs⟩ := Option.map_eq_some_iff.1 hfate
  exact ⟨s, hr, not_panicked_running hs,
    (no_panic_iff (inputsOf_make _ _) ho hr).1 (not_panicked_running hs)⟩

end Calaos.InputControllers
