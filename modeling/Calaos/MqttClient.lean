import Calaos.IoContext
import Calaos.Runs
import Calaos.Serde
import Calaos.Topics
/-!
# The MQTT client (core/src/mqtt_client.rs)

| here | there |
| --- | --- |
| `Request`               | a `publish` or a `subscribe` of `AsyncClient`, all with `QoS::AtLeastOnce` |
| `publishEntitiesAvailabilityOnline` and so on | the functions of these names, as the requests they make in order |
| `setup`                 | the requests of `start` before its loop |
| `reaction`              | what the event loop requests when Home Assistant comes online |
| `passed`                | one `client.publish(..).await?` after the other, up to the first that is refused |
| `St`, `Label`, `step`   | the task of `start`, the task of the event loop, the queue between them, and the broker |

Of the broker we have the session's subscriptions and the retained messages. The session is clean: a lost
connection takes the subscriptions with it, and leaves the last will. `rumqttc` connects again at the next
poll, with the requests that are still in the queue. The event loop polls only when it is not busy with a
message, and it waits for room in the queue as everyone else. Commands for outputs go to another channel
and are not part of this.

`AsyncClient::publish` refuses a topic with a `+` or a `#`, without putting anything into the queue, and `?` ends the
function that called it. So a `start` that is refused a topic returns in its setup: it has put the requests before that
one into the queue, is subscribed to nothing, and publishes no states. `step` is about a client that is refused
nothing; whoever is subscribed to the status of Home Assistant is one (`accepted_of_subscribed`).
-/
namespace Calaos.Mqtt

open Serde

/-- `struct MqttConfig`: the fields that are part of a topic. -/
structure MqttConfig where
  discoveryPrefix : String
  nodeId : String

/-- A payload, a text or the text of a tree. -/
inductive Payload where
  | text (s : String)
  | json (config : Json)

/-- A request of the client. -/
inductive Request where
  | publish (topic : String) (retain : Bool) (payload : Payload)
  | subscribe (filter : String)

section
variable (config : MqttConfig) (io : IoConfig)

/-! ## Topics and payloads -/

def availabilityTopic : String := config.nodeId ++ "/availability"

def entityAvailabilityTopic (id : String) : String := config.nodeId ++ "/availability/" ++ id

/-- The last will that `new` sets. -/
def lastWill : Request := .publish (availabilityTopic config) true (.text "offline")

def publishAvailabilityOnline : Request := .publish (availabilityTopic config) true (.text "online")

/-- The loop over the inputs and outputs of every room, with this payload. -/
def publishEntities (payload : String) : List Request :=
  io.home.rooms.flatMap fun room =>
    room.inputs.map (fun input => .publish (entityAvailabilityTopic config input.id) true (.text payload)) ++
      room.outputs.map fun output => .publish (entityAvailabilityTopic config output.id) true (.text payload)

def publishEntitiesAvailabilityOnline : List Request := publishEntities config io "online"

def publishEntitiesAvailabilityOffline : List Request :=
  .publish (availabilityTopic config) true (.text "offline") :: publishEntities config io "offline"

/-- One entry of `availability`. -/
def availabilityEntry (topic : String) : Json :=
  .obj [("topic", .str topic), ("payload_available", .str "online"), ("payload_not_available", .str "offline")]

/-- The entries of a discovery message that inputs and outputs share. -/
def discoveryBase (room : Room) (name id : String) : Entries :=
  [("name", .str name), ("unique_id", .str (room.name ++ "_" ++ id)),
    ("state_topic", .str (config.nodeId ++ "/state/" ++ id)),
    ("availability", .arr [availabilityEntry (availabilityTopic config),
      availabilityEntry (entityAvailabilityTopic config id)]),
    ("device", .obj [("identifiers", .arr [.str config.nodeId]), ("name", .str "Calaos"),
      ("model", .str "Calaos Controller"), ("manufacturer", .str "Calaos")])]

def discoveryTopic (component : String) (room : Room) (id : String) : String :=
  config.discoveryPrefix ++ "/" ++ component ++ "/" ++ config.nodeId ++ "/" ++ room.name ++ "_" ++ id ++ "/config"

def inputDiscovery (room : Room) (input : Input) : Request :=
  .publish (discoveryTopic config "binary_sensor" room input.id) true
    (.json (.obj (discoveryBase config room input.name input.id ++
      [("payload_on", .str "ON"), ("payload_off", .str "OFF")])))

def outputDiscovery (room : Room) (output : Output) : Request :=
  let base := discoveryBase config room output.name output.id ++
    [("command_topic", .str (config.nodeId ++ "/set/" ++ output.id))]
  match output.kind with
  | .woShutter _ =>
    .publish (discoveryTopic config "cover" room output.id) true
      (.json (.obj (base ++ [("payload_open", .str "OPEN"), ("payload_close", .str "CLOSE"),
        ("payload_stop", .str "STOP"), ("state_open", .str "open"), ("state_opening", .str "opening"),
        ("state_closed", .str "closed"), ("state_closing", .str "closing"), ("device_class", .str "shutter")])))
  | _ =>
    .publish (discoveryTopic config "switch" room output.id) true
      (.json (.obj (base ++ [("payload_on", .str "ON"), ("payload_off", .str "OFF"), ("state_on", .str "ON"),
        ("state_off", .str "OFF")])))

/-- `publish_discovery_with`, if no topic is refused. -/
def publishDiscoveryWith : List Request :=
  io.home.rooms.flatMap fun room =>
    room.inputs.map (inputDiscovery config room) ++ room.outputs.map (outputDiscovery config room)

def commandFilter : String := config.nodeId ++ "/set/+"

def statusTopic : String := "homeassistant/status"

def subscribeToCommands : List Request := [.subscribe (commandFilter config), .subscribe statusTopic]

/-- `encode_state_string`. -/
def encodeStateString : IOValue → String
  | .bool b => if b then "ON" else "OFF"
  | .int i => toString i.toInt
  | .string s => s
  | .shutter .up => "open"
  | .shutter .down => "closed"
  | .shutter .movingUp => "opening"
  | .shutter .movingDown => "closing"

def publishState (state : IOData) : Request :=
  .publish (config.nodeId ++ "/state/" ++ state.id) false (.text (encodeStateString state.value))

/-- What `start` requests before its loop. -/
def setup : List Request :=
  publishAvailabilityOnline config :: publishEntitiesAvailabilityOnline config io ++
    publishDiscoveryWith config io ++ subscribeToCommands config

/-- What the event loop requests on `homeassistant/status`. -/
def reaction (payload : String) : List Request :=
  if payload = "online" then publishDiscoveryWith config io ++ publishEntitiesAvailabilityOnline config io
  else []

end

/-! ## What is refused -/

/-- The requests that get into the queue. -/
def passed (accepts : Request → Bool) (requests : List Request) : List Request := requests.takeWhile accepts

/-- What is known of `AsyncClient::publish`: a topic with a wildcard, and no other, is refused. -/
def RefusesWildcards (accepts : Request → Bool) : Prop :=
  ∀ topic retain payload, accepts (.publish topic retain payload) = true ↔ Topics.Plain topic

/-! ## The tasks and the broker -/

/-- Where `start` is. After a failed `recv` its `select!` listens to the shutdown alone: `deaf`. -/
inductive Phase where
  | setup
  | serving
  | deaf
  | stopping
  | done
deriving DecidableEq

/-- The phase after the last request of a phase. -/
def Phase.next : Phase → Phase
  | .setup => .serving
  | .stopping => .done
  | phase => phase

/-- `todo` is what `start` has still to put into the queue, `busy` what the event loop has. -/
structure St where
  phase : Phase
  todo : List Request
  shutdownRequested : Bool
  busy : List Request
  queue : List Request
  connected : Bool
  subscriptions : List String
  retained : HMap String Payload

inductive Label where
  | requestShutdown
  | shutdown
  | state (ioData : IOData)
  | recvFails
  | put
  | putBusy
  | status (payload : String)
  | connect
  | loss
  | deliver
deriving DecidableEq

/-- The broker gets a request. -/
def St.handle (s : St) : Request → St
  | .publish topic retain payload => if retain then { s with retained := s.retained.insert topic payload } else s
  | .subscribe filter => { s with subscriptions := filter :: s.subscriptions }

/-- The broker touches neither task. -/
theorem handle_frame (s : St) (request : Request) :
    (s.handle request).phase = s.phase ∧ (s.handle request).todo = s.todo ∧
      (s.handle request).busy = s.busy ∧ (s.handle request).queue = s.queue ∧
      (s.handle request).connected = s.connected ∧
      (s.handle request).shutdownRequested = s.shutdownRequested := by
  cases request with
  | publish topic retain payload => cases retain <;> exact ⟨rfl, rfl, rfl, rfl, rfl, rfl⟩
  | subscribe filter => exact ⟨rfl, rfl, rfl, rfl, rfl, rfl⟩

section
variable (s : St) (request : Request)

@[simp] theorem handle_phase : (s.handle request).phase = s.phase := (handle_frame s request).1

@[simp] theorem handle_todo : (s.handle request).todo = s.todo := (handle_frame s request).2.1

@[simp] theorem handle_busy : (s.handle request).busy = s.busy := (handle_frame s request).2.2.1

@[simp] theorem handle_queue : (s.handle request).queue = s.queue := (handle_frame s request).2.2.2.1

@[simp] theorem handle_connected : (s.handle request).connected = s.connected := (handle_frame s request).2.2.2.2.1

@[simp] theorem handle_shutdownRequested : (s.handle request).shutdownRequested = s.shutdownRequested :=
  (handle_frame s request).2.2.2.2.2

end

/-- The capacity of the queue. -/
def capacity : Nat := 100

section
variable (config : MqttConfig) (io : IoConfig)

/-- One step of a task, of the connection or of the broker. -/
def step (s : St) : Label → Option St
  | .requestShutdown => some { s with shutdownRequested := true }
  | .shutdown =>
    match s.phase, s.todo with
    | .serving, [] | .deaf, [] =>
      if s.shutdownRequested then
        some { s with phase := .stopping, todo := publishEntitiesAvailabilityOffline config io }
      else none
    | _, _ => none
  | .state ioData =>
    match s.phase, s.todo with
    | .serving, [] => some { s with todo := [publishState config ioData] }
    | _, _ => none
  | .recvFails =>
    match s.phase, s.todo with
    | .serving, [] => some { s with phase := .deaf }
    | _, _ => none
  | .put =>
    match s.todo with
    | [] => none
    | request :: rest =>
      if s.queue.length < capacity then
        some { s with
          phase := if rest.isEmpty then s.phase.next else s.phase
          todo := rest
          queue := s.queue ++ [request] }
      else none
  | .putBusy =>
    match s.busy with
    | [] => none
    | request :: rest =>
      if s.queue.length < capacity then some { s with busy := rest, queue := s.queue ++ [request] }
      else none
  | .status payload =>
    if s.connected ∧ s.busy.isEmpty ∧ statusTopic ∈ s.subscriptions then
      some { s with busy := reaction config io payload }
    else none
  | .connect =>
    if ¬ s.connected ∧ s.busy.isEmpty then some { s with connected := true, subscriptions := [] }
    else none
  | .loss =>
    if s.connected then
      some ({ s with connected := false, subscriptions := [] }.handle (lastWill config))
    else none
  | .deliver =>
    match s.queue with
    | [] => none
    | request :: rest =>
      if s.connected ∧ s.busy.isEmpty then some ({ s with queue := rest }.handle request)
      else none

/-- Both tasks at their start, with what the broker has retained from before. -/
def init (retained : HMap String Payload) : St :=
  ⟨.setup, setup config io, false, [], [], false, [], retained⟩

end

section
variable {config : MqttConfig} {io : IoConfig} {s s' : St} {l : Label}

variable (config io s) in
/-- Every way to take a step. -/
inductive Step : Label → St → Prop where
  | requestShutdown : Step .requestShutdown { s with shutdownRequested := true }
  | shutdown (hp : s.phase = .serving ∨ s.phase = .deaf) (ht : s.todo = []) (hr : s.shutdownRequested = true) :
    Step .shutdown { s with phase := .stopping, todo := publishEntitiesAvailabilityOffline config io }
  | state (ioData : IOData) (hp : s.phase = .serving) (ht : s.todo = []) :
    Step (.state ioData) { s with todo := [publishState config ioData] }
  | recvFails (hp : s.phase = .serving) (ht : s.todo = []) : Step .recvFails { s with phase := .deaf }
  | put (request : Request) (rest : List Request) (ht : s.todo = request :: rest)
    (hroom : s.queue.length < capacity) :
    Step .put { s with
      phase := if rest.isEmpty then s.phase.next else s.phase
      todo := rest
      queue := s.queue ++ [request] }
  | putBusy (request : Request) (rest : List Request) (hb : s.busy = request :: rest)
    (hroom : s.queue.length < capacity) : Step .putBusy { s with busy := rest, queue := s.queue ++ [request] }
  | status (payload : String) (hc : s.connected = true ∧ s.busy.isEmpty = true ∧ statusTopic ∈ s.subscriptions) :
    Step (.status payload) { s with busy := reaction config io payload }
  | connect (hc : ¬ s.connected = true ∧ s.busy.isEmpty = true) :
    Step .connect { s with connected := true, subscriptions := [] }
  | loss (hc : s.connected = true) :
    Step .loss ({ s with connected := false, subscriptions := [] }.handle (lastWill config))
  | deliver (request : Request) (rest : List Request) (hq : s.queue = request :: rest)
    (hc : s.connected = true ∧ s.busy.isEmpty = true) : Step .deliver ({ s with queue := rest }.handle request)

theorem Step.of_step (h : step config io s l = some s') : Step config io s l s' := by
  cases l with
  | requestShutdown =>
    cases h
    exact .requestShutdown
  | shutdown =>
    simp only [step] at h
    split at h
    · rename_i hp ht
      split at h
      · cases h
        exact .shutdown (.inl hp) ht ‹_›
      · cases h
    · rename_i hp ht
      split at h
      · cases h
        exact .shutdown (.inr hp) ht ‹_›
      · cases h
    · cases h
  | state ioData =>
    simp only [step] at h
    split at h
    · rename_i hp ht
      cases h
      exact .state ioData hp ht
    · cases h
  | recvFails =>
    simp only [step] at h
    split at h
    · rename_i hp ht
      cases h
      exact .recvFails hp ht
    · cases h
  | put =>
    simp only [step] at h
    split at h
    · cases h
    · rename_i request rest ht
      split at h
      · cases h
        exact .put request rest ht ‹_›
      · cases h
  | putBusy =>
    simp only [step] at h
    split at h
    · cases h
    · rename_i request rest hb
      split at h
      · cases h
        exact .putBusy request rest hb ‹_›
      · cases h
  | status payload =>
    simp only [step] at h
    split at h
    · cases h
      exact .status payload ‹_›
    · cases h
  | connect =>
    simp only [step] at h
    split at h
    · cases h
      exact .connect ‹_›
    · cases h
  | loss =>
    simp only [step] at h
    split at h
    · cases h
      exact .loss ‹_›
    · cases h
  | deliver =>
    simp only [step] at h
    split at h
    · cases h
    · rename_i request rest hq
      split at h
      · cases h
        exact .deliver request rest hq ‹_›
      · cases h

end

end Calaos.Mqtt
