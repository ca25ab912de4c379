import Calaos.Buttons
import Calaos.Discovery
import Calaos.OutputControllers
import Calaos.Queues
import Calaos.WagoModbus
import Calaos.Websocket
import Mathlib.Data.Nat.Pairing
/-!
# The whole server (server/src/main.rs)

| here | there |
| --- | --- |
| `Site`                      | the configuration, the arguments of `main` that the tasks see, and the world outside |
| `inputEvt`, `outputCmd`, `feedback` | `input_evt_channel`, `output_cmd_channel`, `output_feedback_evt_channel` |
| `St.pending`, `St.lastChange` | `main_server::run`: the command it is sending, and its map |
| `St.sessions`               | the connections that `websocket_server::run` has accepted on the port without TLS |
| `St.dispatch`, `Controller` | `run_output_controllers`: `handle_rx` with the channels, and the controllers |
| `Label`, `step`             | one step of one of the branches of the `select!` in `main`, or of the MQTT client |

All branches run in one task and give way to each other where they wait. The turn of a controller is one step
here, although it waits for the PLC in between: nobody sees of it but the values that it broadcasts, and these
leave its `outbox` one by one before its next turn. A session is there as soon as its client is accepted; what a TLS
handshake does to the others is in `WebsocketServer`. Its request for the home carries the number of the session
besides its own.

The first branch that ends, ends the server. `run_output_controllers` ends with the first of its controllers
(`returns`), with an error or without. The controllers of `run_input_controllers` send nothing, so that all there is
of them is that they may end it (`quit`, as the signal does). Of the MQTT client there are the commands it sends. With
`no_output` that branch is there and is never polled: nothing takes from `output_cmd_channel`, and it is not closed.
-/
namespace Calaos.Server

open Runs
open OutputControllers (Parsers OutputControllerConfig Launched launch makeOutputControllerMap channelCapacity)

/-- What `main` is started with. The receivers of a broadcast channel share `ring` slots, at least as many as were
asked for. -/
structure Site (Ip : Type) [DecidableEq Ip] where
  io : IoConfig
  rulesConfig : Rules.RulesConfig
  noOutput : Bool
  nodeId : String
  parse : Parsers Ip
  configs : List (OutputControllerConfig Ip)
  enumerates : HMap.Enumerates configs (makeOutputControllerMap parse io)
  env : Nat → Env
  world : Nat → World
  verify : String → String → Bool
  parseJson : String → Option Serde.Json
  ring : Nat
  le_ring : channelCapacity ≤ ring

section
variable {Ip : Type} [DecidableEq Ip] (site : Site Ip)

/-- What the loop of `run_output_controllers` makes. -/
def Site.launched : Launched Ip := launch site.parse site.io (makeOutputContextMap site.io) site.configs

/-- How many controllers there are. -/
def Site.size : Nat := site.launched.instances.length

/-- The outputs that a controller is given. -/
def Site.outputs (n : Nat) : OutputContextMap := (site.launched.instances[n]?).elim ∅ (·.2)

/-- No id leads to the controller, so that the sender of its channel is dropped. -/
def Site.Orphan (n : Nat) : Prop :=
  ∀ id ∈ site.launched.reverseMap.keys, site.launched.reverseMap.lookup id ≠ some n

instance (n : Nat) : Decidable (site.Orphan n) := inferInstanceAs (Decidable (∀ id ∈ _, _))

end

/-! ## The state -/

/-- Who put a command into `input_evt_channel`. -/
inductive Source where
  | datagram
  | session (i : Nat)
deriving DecidableEq

/-- Who put a command into `output_cmd_channel`. -/
inductive Sender where
  | engine
  | mqtt
deriving DecidableEq

/-- Who broadcast a value. -/
inductive Origin where
  | input
  | controller (n : Nat)
deriving DecidableEq

/-- Where `wago_modbus_controller::run` is. -/
inductive Status where
  | starting
  | looping
  | returned
deriving DecidableEq

/-- A controller, and how many of its values have been broadcast. -/
structure Controller where
  status : Status
  st : Wago.St
  told : Nat

/-- The values it has still to broadcast. -/
def Controller.outbox (c : Controller) : List IOData := c.st.txFeedback.drop c.told

/-- The queue of `feedback` is that of the engine: the sessions have their own. -/
structure St where
  running : Bool
  lastChange : HMap UInt32 Nat
  pending : List IODataAction
  sessions : List Websocket.St
  inputEvt : Queue (Source × IODataCmd)
  engine : Engine.St
  outputCmd : Queue (Sender × IODataAction)
  dispatch : OutputControllers.St
  controllers : Nat → Controller
  feedback : Queue (Origin × IOData)

inductive Label (Addr : Type) where
  | datagram (datagram : MainServer.Datagram Addr)
  | submit
  | accept
  | session (i : Nat) (l : Websocket.Label)
  | mqtt (topic : String) (payload : ByteArray)
  | recv
  | send
  | hear
  | dispatch
  | dispatched
  | start (n : Nat) (order : List String)
  | unreachable (n : Nat)
  | turn (n : Nat) (l : Wago.Label)
  | tell (n : Nat)
  | returns (n : Nat)
  | quit

/-! ## The steps -/

/-- Every session has a receiver of its own. -/
def hearing (ioData : IOData) (c : Websocket.St) : Websocket.St :=
  { c with rxFeedbackEvt := c.rxFeedbackEvt ++ [ioData] }

/-- `tx_feedback.send(..)`. -/
def St.broadcast (s : St) (origin : Origin) (ioData : IOData) : St :=
  { s with feedback := s.feedback.add (origin, ioData), sessions := s.sessions.map (hearing ioData) }

/-- The command of a session. -/
def addressed (i : Nat) : IODataCmd → IODataCmd
  | .getAllData handler => .getAllData (Nat.pair i handler)
  | .action ioAction => .action ioAction

def St.setController (s : St) (n : Nat) (c : Controller) : St :=
  { s with controllers := Function.update s.controllers n c }

section
variable {Ip : Type} [DecidableEq Ip] (site : Site Ip) {Addr : Type}

/-- One datagram, up to the wait for room in `input_evt_channel`. -/
def datagramStep (s : St) (datagram : MainServer.Datagram Addr) : Option St :=
  if s.pending = [] then
    match MainServer.asyncUdpRead datagram with
    | none => some { s with running := false }
    | some request =>
      let (lastChange, outs) :=
        MainServer.handle (MainServer.makeInputVarMap site.io) s.lastChange datagram request
      some ((MainServer.broadcasts outs).foldl (fun s ioData => s.broadcast .input ioData)
        { s with lastChange := lastChange, pending := MainServer.commands outs })
  else none

/-- A step of the connection alone. -/
def St.moved (s : St) (i : Nat) (c : Websocket.St) (l : Websocket.Label) : Option St :=
  (Websocket.step site.verify site.parseJson c l).map fun c => { s with sessions := s.sessions.set i c }

/-- A step of a session. The client and the network are as they are; the receiver has lagged when more values wait
than there are slots, a command goes into the channel once there is room, and an answer comes from the engine. -/
def sessionStep (s : St) (i : Nat) (l : Websocket.Label) : Option St :=
  match s.sessions[i]? with
  | none => none
  | some c =>
    match l with
    | .broadcast _ => none
    | .next _ | .sent _ => s.moved site i c l
    | .feedback ok => if ok = decide (c.rxFeedbackEvt.length ≤ site.ring) then s.moved site i c l else none
    | .commanded ok =>
      match c.phase with
      | .command cmd =>
        if ok then
          (s.inputEvt.put channelCapacity (.session i, addressed i cmd)).bind fun inputEvt =>
            { s with inputEvt := inputEvt }.moved site i c l
        else none
      | _ => none
    | .answer data =>
      match c.phase, data with
      | .answer handler, some data =>
        if (Nat.pair i handler, data) ∈ s.engine.answers then s.moved site i c l else none
      | _, _ => none

/-- `handle_input` gets a command. -/
def recvStep (s : St) : Option St :=
  s.inputEvt.take.bind fun (command, inputEvt) =>
    (Engine.step site.io s.engine (.recv (some command.2))).map fun engine =>
      { s with engine := engine, inputEvt := inputEvt }

/-- It has sent one. -/
def sendStep (s : St) : Option St :=
  match s.engine.pc with
  | .send command _ _ =>
    (s.outputCmd.put channelCapacity (.engine, command)).bind fun outputCmd =>
      (Engine.step site.io s.engine .sent).map fun engine =>
        { s with engine := engine, outputCmd := outputCmd }
  | _ => none

/-- `handle_output_feedback` gets a value, or finds that it has lagged. -/
def hearStep (s : St) : Option St :=
  s.feedback.take.bind fun (ioData, feedback) =>
    if s.feedback.waiting.length ≤ site.ring then
      (Engine.step site.io s.engine (.feedback ioData.2)).map fun engine =>
        { s with engine := engine, feedback := feedback }
    else
      (Engine.step site.io s.engine .feedbackFails).map fun engine => { s with engine := engine, running := false }

/-- `handle_rx` gets a command. -/
def dispatchStep (s : St) : Option St :=
  if site.noOutput then none
  else
    s.outputCmd.take.bind fun (ioData, outputCmd) =>
      (OutputControllers.step site.launched.reverseMap s.dispatch (.recv (some ioData.2))).map fun dispatch =>
        { s with dispatch := dispatch, outputCmd := outputCmd }

/-- It has sent it on. -/
def dispatchedStep (s : St) : Option St :=
  if site.noOutput then none
  else
    (OutputControllers.step site.launched.reverseMap s.dispatch .sent).map fun dispatch =>
      { s with dispatch := dispatch }

/-- The controller once a piece of `run` is done. -/
def Controller.after (c : Controller) : EStateM.Result Fault Wago.St Unit → Controller
  | .ok _ st => { c with status := if st.closed then .returned else .looping, st := st }
  | .error _ st => { c with status := .returned, st := st }

/-- The first loop of `run`. -/
def startStep (s : St) (n : Nat) (order : List String) : Option St :=
  if site.noOutput = false ∧ n < site.size ∧ (s.controllers n).status = .starting ∧
      HMap.Enumerates order (site.outputs n) then
    some (s.setController n ((s.controllers n).after
      (Wago.startup (site.env n) order (Wago.init (site.world n) (site.outputs n)))))
  else none

/-- `ModbusClient::connect` fails. -/
def unreachableStep (s : St) (n : Nat) : Option St :=
  if site.noOutput = false ∧ n < site.size ∧ (s.controllers n).status = .starting then
    some (s.setController n { s.controllers n with status := .returned })
  else none

/-- What a turn takes from the channel of its controller. -/
def takeFor (s : St) (n : Nat) : Wago.Label → Option OutputControllers.St
  | .recv (some ioData) =>
    if (s.dispatch.queues n).head? = some ioData then
      OutputControllers.step site.launched.reverseMap s.dispatch (.take n)
    else none
  | .recv none => if site.Orphan n ∧ s.dispatch.queues n = [] then some s.dispatch else none
  | _ => some s.dispatch

/-- A turn of the main loop of `run`. -/
def turnStep (s : St) (n : Nat) (l : Wago.Label) : Option St :=
  if site.noOutput = false ∧ n < site.size ∧ (s.controllers n).status = .looping ∧
      (s.controllers n).outbox = [] ∧ Wago.enabled (s.controllers n).st l then
    (takeFor site s n l).map fun dispatch =>
      { s with dispatch := dispatch }.setController n
        ((s.controllers n).after (Wago.iteration (site.env n) l (s.controllers n).st))
  else none

/-- A value of a turn is broadcast. -/
def tellStep (s : St) (n : Nat) : Option St :=
  if site.noOutput = false ∧ n < site.size then
    match (s.controllers n).outbox with
    | [] => none
    | ioData :: _ =>
      some ((s.setController n { s.controllers n with told := (s.controllers n).told + 1 }).broadcast
        (.controller n) ioData)
  else none

/-- A controller has returned, and so has `run_output_controllers`. -/
def returnsStep (s : St) (n : Nat) : Option St :=
  if site.noOutput = false ∧ n < site.size ∧ (s.controllers n).status = .returned ∧
      (s.controllers n).outbox = [] then
    some { s with running := false }
  else none

/-- `handle_command` of the MQTT client, which waits for room too. -/
def mqttStep (s : St) (topic : String) (payload : ByteArray) : Option St :=
  (Mqtt.handleCommand site.nodeId topic payload).bind fun ioAction =>
    (s.outputCmd.put channelCapacity (.mqtt, ioAction)).map fun outputCmd => { s with outputCmd := outputCmd }

/-- `main_server::run` has sent its command. -/
def submitStep (s : St) : Option St :=
  match s.pending with
  | [] => none
  | ioAction :: pending =>
    (s.inputEvt.put channelCapacity (.datagram, .action ioAction)).map fun inputEvt =>
      { s with pending := pending, inputEvt := inputEvt }

/-- One step, as long as no branch has ended. -/
def step (s : St) (l : Label Addr) : Option St :=
  if s.running then
    match l with
    | .datagram datagram => datagramStep site s datagram
    | .submit => submitStep s
    | .accept => some { s with sessions := s.sessions ++ [Websocket.init] }
    | .session i l => sessionStep site s i l
    | .mqtt topic payload => mqttStep site s topic payload
    | .recv => recvStep site s
    | .send => sendStep site s
    | .hear => hearStep site s
    | .dispatch => dispatchStep site s
    | .dispatched => dispatchedStep site s
    | .start n order => startStep site s n order
    | .unreachable n => unreachableStep site s n
    | .turn n l => turnStep site s n l
    | .tell n => tellStep site s n
    | .returns n => returnsStep site s n
    | .quit => some { s with running := false }
  else none

/-- Everything as `main` starts it. -/
def init : St where
  running := true
  lastChange := ∅
  pending := []
  sessions := []
  inputEvt := .empty
  engine := Engine.init site.io site.rulesConfig
  outputCmd := .empty
  dispatch := OutputControllers.init
  controllers n := ⟨.starting, Wago.init (site.world n) (site.outputs n), 0⟩
  feedback := .empty

end

/-! ## What a step does -/

section
variable {Ip : Type} [DecidableEq Ip] {site : Site Ip} {Addr : Type} {s s' : St} {l : Label Addr}

variable (site s) in
/-- The steps of a session that touch nothing else. -/
def Alone (i : Nat) (c : Websocket.St) : Websocket.Label → Prop
  | .next _ | .sent _ => True
  | .feedback ok => ok = decide (c.rxFeedbackEvt.length ≤ site.ring)
  | .answer data => ∃ handler answer, c.phase = .answer handler ∧ data = some answer ∧
      (Nat.pair i handler, answer) ∈ s.engine.answers
  | .broadcast _ | .commanded _ => False

variable (site s) in
/-- Every way to take a step. -/
inductive Step : Label Addr → St → Prop where
  | garbled (datagram : MainServer.Datagram Addr) (hp : s.pending = [])
    (hr : MainServer.asyncUdpRead datagram = none) : Step (.datagram datagram) { s with running := false }
  | datagram (datagram : MainServer.Datagram Addr) (request : Protocol.Request) (hp : s.pending = [])
    (hr : MainServer.asyncUdpRead datagram = some request) (lastChange : HMap UInt32 Nat)
    (outs : List (MainServer.Out Addr))
    (hh : MainServer.handle (MainServer.makeInputVarMap site.io) s.lastChange datagram request =
      (lastChange, outs)) :
    Step (.datagram datagram) ((MainServer.broadcasts outs).foldl (fun s ioData => s.broadcast .input ioData)
      { s with lastChange := lastChange, pending := MainServer.commands outs })
  | submit (ioAction : IODataAction) (rest : List IODataAction) (hp : s.pending = ioAction :: rest)
    (hroom : s.inputEvt.waiting.length < channelCapacity) :
    Step .submit { s with pending := rest, inputEvt := s.inputEvt.add (.datagram, .action ioAction) }
  | accept : Step .accept { s with sessions := s.sessions ++ [Websocket.init] }
  | alone (i : Nat) (c c' : Websocket.St) (l : Websocket.Label) (hi : s.sessions[i]? = some c)
    (hl : Alone site s i c l) (hs : Websocket.step site.verify site.parseJson c l = some c') :
    Step (.session i l) { s with sessions := s.sessions.set i c' }
  | commanded (i : Nat) (c c' : Websocket.St) (cmd : IODataCmd) (hi : s.sessions[i]? = some c)
    (hp : c.phase = .command cmd) (hroom : s.inputEvt.waiting.length < channelCapacity)
    (hs : Websocket.step site.verify site.parseJson c (.commanded true) = some c') :
    Step (.session i (.commanded true)) { s with
      inputEvt := s.inputEvt.add (.session i, addressed i cmd)
      sessions := s.sessions.set i c' }
  | mqtt (topic : String) (payload : ByteArray) (ioAction : IODataAction)
    (ha : Mqtt.handleCommand site.nodeId topic payload = some ioAction)
    (hroom : s.outputCmd.waiting.length < channelCapacity) :
    Step (.mqtt topic payload) { s with outputCmd := s.outputCmd.add (.mqtt, ioAction) }
  | recv (command : Source × IODataCmd) (inputEvt : Queue (Source × IODataCmd)) (engine : Engine.St)
    (ht : s.inputEvt.Takes command inputEvt)
    (he : Engine.step site.io s.engine (.recv (some command.2)) = some engine) :
    Step .recv { s with engine := engine, inputEvt := inputEvt }
  | send (command : IODataAction) (actions : List Rules.Action) (rules : List Rules.Rule) (engine : Engine.St)
    (hp : s.engine.pc = .send command actions rules) (hroom : s.outputCmd.waiting.length < channelCapacity)
    (he : Engine.step site.io s.engine .sent = some engine) :
    Step .send { s with engine := engine, outputCmd := s.outputCmd.add (.engine, command) }
  | hear (ioData : Origin × IOData) (feedback : Queue (Origin × IOData)) (engine : Engine.St)
    (ht : s.feedback.Takes ioData feedback) (hlag : s.feedback.waiting.length ≤ site.ring)
    (he : Engine.step site.io s.engine (.feedback ioData.2) = some engine) :
    Step .hear { s with engine := engine, feedback := feedback }
  | lagged (engine : Engine.St) (hlag : site.ring < s.feedback.waiting.length)
    (he : Engine.step site.io s.engine .feedbackFails = some engine) :
    Step .hear { s with engine := engine, running := false }
  | dispatch (ioData : Sender × IODataAction) (outputCmd : Queue (Sender × IODataAction))
    (dispatch : OutputControllers.St) (hout : site.noOutput = false) (ht : s.outputCmd.Takes ioData outputCmd)
    (hd : OutputControllers.step site.launched.reverseMap s.dispatch (.recv (some ioData.2)) = some dispatch) :
    Step .dispatch { s with dispatch := dispatch, outputCmd := outputCmd }
  | dispatched (dispatch : OutputControllers.St) (hout : site.noOutput = false)
    (hd : OutputControllers.step site.launched.reverseMap s.dispatch .sent = some dispatch) :
    Step .dispatched { s with dispatch := dispatch }
  | start (n : Nat) (order : List String) (hout : site.noOutput = false) (hn : n < site.size)
    (hs : (s.controllers n).status = .starting) (ho : HMap.Enumerates order (site.outputs n)) :
    Step (.start n order) (s.setController n ((s.controllers n).after
      (Wago.startup (site.env n) order (Wago.init (site.world n) (site.outputs n)))))
  | unreachable (n : Nat) (hout : site.noOutput = false) (hn : n < site.size)
    (hs : (s.controllers n).status = .starting) :
    Step (.unreachable n) (s.setController n { s.controllers n with status := .returned })
  | turn (n : Nat) (l : Wago.Label) (dispatch : OutputControllers.St) (hout : site.noOutput = false)
    (hn : n < site.size) (hs : (s.controllers n).status = .looping) (ho : (s.controllers n).outbox = [])
    (hl : Wago.enabled (s.controllers n).st l) (ht : takeFor site s n l = some dispatch) :
    Step (.turn n l) ({ s with dispatch := dispatch }.setController n
      ((s.controllers n).after (Wago.iteration (site.env n) l (s.controllers n).st)))
  | tell (n : Nat) (ioData : IOData) (rest : List IOData) (hout : site.noOutput = false) (hn : n < site.size)
    (ho : (s.controllers n).outbox = ioData :: rest) :
    Step (.tell n) ((s.setController n
      { s.controllers n with told := (s.controllers n).told + 1 }).broadcast (.controller n) ioData)
  | returns (n : Nat) (hout : site.noOutput = false) (hn : n < site.size)
    (hs : (s.controllers n).status = .returned) (ho : (s.controllers n).outbox = []) :
    Step (.returns n) { s with running := false }
  | quit : Step .quit { s with running := false }

theorem Step.of_session {i : Nat} {l : Websocket.Label} (h : sessionStep site s i l = some s') :
    Step site s (.session i l : Label Addr) s' := by
  unfold sessionStep at h
  cases hi : s.sessions[i]? with
  | none =>
    rw [hi] at h
    cases h
  | some c =>
    rw [hi] at h
    have hmoved : Alone site s i c l → s.moved site i c l = some s' →
        Step site s (.session i l : Label Addr) s' := by
      intro hl hm
      obtain ⟨c', hs, rfl⟩ := Option.map_eq_some_iff.1 hm
      exact .alone i c c' l hi hl hs
    cases l with
    | broadcast ioData => cases h
    | next msg => exact hmoved trivial h
    | sent ok => exact hmoved trivial h
    | feedback ok =>
      simp only at h
      split at h
      · exact hmoved ‹_› h
      · cases h
    | commanded ok =>
      simp only at h
      split at h
      · rename_i cmd hp
        cases ok with
        | false => cases h
        | true =>
          obtain ⟨inputEvt, hput, hm⟩ := Option.bind_eq_some_iff.1 h
          obtain ⟨hroom, rfl⟩ := Queue.put_eq_some.1 hput
          obtain ⟨c', hs, rfl⟩ := Option.map_eq_some_iff.1 hm
          exact .commanded i c c' cmd hi hp hroom hs
      · cases h
    | answer data =>
      simp only at h
      split at h
      · rename_i handler answer hp
        split at h
        · exact hmoved ⟨handler, answer, hp, rfl, ‹_›⟩ h
        · cases h
      · cases h

theorem Step.of_hear (h : hearStep site s = some s') : Step site s (.hear : Label Addr) s' := by
  obtain ⟨⟨ioData, feedback⟩, ht, h⟩ := Option.bind_eq_some_iff.1 h
  simp only at h
  split at h
  · obtain ⟨engine, he, rfl⟩ := Option.map_eq_some_iff.1 h
    exact .hear ioData feedback engine (Queue.takes_of_take ht) ‹_› he
  · obtain ⟨engine, he, rfl⟩ := Option.map_eq_some_iff.1 h
    exact .lagged engine (by omega) he

theorem Step.of_send (h : sendStep site s = some s') : Step site s (.send : Label Addr) s' := by
  unfold sendStep at h
  split at h
  · rename_i command actions rules hp
    obtain ⟨outputCmd, hput, h⟩ := Option.bind_eq_some_iff.1 h
    obtain ⟨engine, he, rfl⟩ := Option.map_eq_some_iff.1 h
    obtain ⟨hroom, rfl⟩ := Queue.put_eq_some.1 hput
    exact .send command actions rules engine hp hroom he
  · cases h

theorem Step.of_dispatch (h : dispatchStep site s = some s') : Step site s (.dispatch : Label Addr) s' := by
  unfold dispatchStep at h
  split at h
  · cases h
  · rename_i hout
    obtain ⟨⟨ioData, outputCmd⟩, ht, h⟩ := Option.bind_eq_some_iff.1 h
    obtain ⟨dispatch, hd, rfl⟩ := Option.map_eq_some_iff.1 h
    exact .dispatch ioData outputCmd dispatch (by simpa using hout) (Queue.takes_of_take ht) hd

theorem Step.of_step (h : step site s l = some s') : s.running = true ∧ Step site s l s' := by
  unfold step at h
  split at h
  · refine ⟨‹_›, ?_⟩
    cases l with
    | datagram datagram =>
      simp only [datagramStep] at h
      split at h
      · split at h
        · cases h
          exact .garbled datagram ‹_› ‹_›
        · cases h
          exact .datagram datagram _ ‹_› ‹_› _ _ rfl
      · cases h
    | submit =>
      simp only [submitStep] at h
      split at h
      · cases h
      · obtain ⟨inputEvt, hput, rfl⟩ := Option.map_eq_some_iff.1 h
        obtain ⟨hroom, rfl⟩ := Queue.put_eq_some.1 hput
        exact .submit _ _ ‹_› hroom
    | accept =>
      cases h
      exact .accept
    | session i l => exact .of_session h
    | mqtt topic payload =>
      obtain ⟨ioAction, ha, h⟩ := Option.bind_eq_some_iff.1 h
      obtain ⟨outputCmd, hput, rfl⟩ := Option.map_eq_some_iff.1 h
      obtain ⟨hroom, rfl⟩ := Queue.put_eq_some.1 hput
      exact .mqtt topic payload ioAction ha hroom
    | recv =>
      obtain ⟨⟨command, inputEvt⟩, ht, h⟩ := Option.bind_eq_some_iff.1 h
      obtain ⟨engine, he, rfl⟩ := Option.map_eq_some_iff.1 h
      exact .recv command inputEvt engine (Queue.takes_of_take ht) he
    | send => exact .of_send h
    | hear => exact .of_hear h
    | dispatch => exact .of_dispatch h
    | dispatched =>
      simp only [dispatchedStep] at h
      split at h
      · cases h
      · rename_i hout
        obtain ⟨dispatch, hd, rfl⟩ := Option.map_eq_some_iff.1 h
        exact .dispatched dispatch (by simpa using hout) hd
    | start n order =>
      simp only [startStep] at h
      split at h
      · rename_i hc
        cases h
        exact .start n order hc.1 hc.2.1 hc.2.2.1 hc.2.2.2
      · cases h
    | unreachable n =>
      simp only [unreachableStep] at h
      split at h
      · rename_i hc
        cases h
        exact .unreachable n hc.1 hc.2.1 hc.2.2
      · cases h
    | turn n l =>
      simp only [turnStep] at h
      split at h
      · rename_i hc
        obtain ⟨dispatch, ht, rfl⟩ := Option.map_eq_some_iff.1 h
        exact .turn n l dispatch hc.1 hc.2.1 hc.2.2.1 hc.2.2.2.1 hc.2.2.2.2 ht
      · cases h
    | tell n =>
      simp only [tellStep] at h
      split at h
      · rename_i hc
        split at h
        · cases h
        · cases h
          exact .tell n _ _ hc.1 hc.2 ‹_›
      · cases h
    | returns n =>
      simp only [returnsStep] at h
      split at h
      · rename_i hc
        cases h
        exact .returns n hc.1 hc.2.1 hc.2.2.1 hc.2.2.2
      · cases h
    | quit =>
      cases h
      exact .quit
  · cases h

end

end Calaos.Server
