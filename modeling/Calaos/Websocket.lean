import Calaos.JsonCodec
import Calaos.RulesEngine
/-!
# One websocket connection (core/src/websocket_server.rs)

| here | there |
| --- | --- |
| `Message`, `Reply`       | the messages of the client, and what `ws_stream.send` gets; a text reply is the text of its response |
| `verifyLogin`            | `verify_login`, with the two variables of the environment |
| `Phase`, `St`, `Label`, `step` | `handle_connection` after the handshake; a phase is a place where it waits |
| `requestOf`, `handleRequest` | the two `match`es of its loop |

Only the first wait listens to the client and to the feedback at once. While a reply or a command is
on its way the connection does nothing else. Every error ends it, and nothing follows: `closed`.
-/
namespace Calaos

/-- `verify_login`: any login is good if none is configured. -/
def verifyLogin (wsUser wsPass : Option String) (user pass : String) : Bool :=
  match wsUser, wsPass with
  | some u, some p => user == u && pass == p
  | _, _ => true

namespace Websocket

open Runs

/-- `Message`, as `ws_stream.next()` gives it. -/
inductive Message where
  | text (msgStr : String)
  | binary
  | ping (data : List UInt8)
  | pong
  | close
  | frame
deriving DecidableEq

/-- A message to the client. -/
inductive Reply where
  | text (response : Response)
  | pong (data : List UInt8)
deriving DecidableEq

/-- What the connection does to the world. A message counts from the call of `ws_stream.send`, which may
fail half way, a command when it is in the channel. -/
inductive Effect where
  | send (reply : Reply)
  | command (cmd : IODataCmd)
deriving DecidableEq

/-- Where `handle_connection` waits. -/
inductive Phase where
  | select
  | send (close : Bool)
  | command (cmd : IODataCmd)
  | answer (handler : Nat)
  | closed
deriving DecidableEq

/-- `authenticated`, the wait, the feedback that `rx_feedback_evt` has not delivered yet, the number of
home requests made, and the effects so far. -/
structure St where
  authenticated : Bool
  phase : Phase
  rxFeedbackEvt : List IOData
  handlers : Nat
  log : List Effect
deriving DecidableEq

/-- A value is broadcast, or a wait ends. A missing result is an error, or the end of the stream. -/
inductive Label where
  | broadcast (ioData : IOData)
  | next (msg : Option Message)
  | feedback (ok : Bool)
  | sent (ok : Bool)
  | commanded (ok : Bool)
  | answer (data : Option HomeData)

/-- The state after the handshake. -/
def init : St := ⟨false, .select, [], 0, []⟩

/-- `ws_stream.send(reply)`, after which the loop goes on or breaks. -/
def St.send (s : St) (reply : Reply) (close : Bool) : St :=
  { s with phase := .send close, log := s.log ++ [.send reply] }

/-- A refusal: `Login` without success, and the end. -/
def St.refuse (s : St) : St := s.send (.text (.login ⟨false⟩)) true

section
variable (verify : String → String → Bool) (parse : String → Option Serde.Json)

/-- `match request`. -/
def handleRequest (s : St) : Request → St
  | .pong data => s.send (.pong data) false
  | .login data =>
    if verify data.cnUser data.cnPass then
      { s with authenticated := true }.send (.text (.login ⟨true⟩)) false
    else { s with authenticated := false }.refuse
  | .getHome =>
    if s.authenticated then
      { s with phase := .command (.getAllData s.handlers), handlers := s.handlers + 1 }
    else s.refuse
  | .setState data =>
    if s.authenticated then { s with phase := .command (.action data.action) }
    else s.refuse
  | .event kind data => s.send (.text (.event (EventData.new kind data))) false

/-- `match msg`: the request to serve, if the connection goes on. -/
def requestOf : Option Message → Option Request
  | some (.text msgStr) => Request.tryFrom parse msgStr
  | some (.ping data) => some (.pong data)
  | some _ | none => none

/-- What happens to a message up to the next wait. -/
def handleNext (s : St) (msg : Option Message) : St :=
  match requestOf parse msg with
  | some request => handleRequest verify s request
  | none => { s with phase := .closed }

/-- One step of `handle_connection`. -/
def step (s : St) : Label → Option St
  | .broadcast ioData => some { s with rxFeedbackEvt := s.rxFeedbackEvt ++ [ioData] }
  | .next msg =>
    match s.phase with
    | .select => some (handleNext verify parse s msg)
    | _ => none
  | .feedback ok =>
    match s.phase, s.authenticated with
    | .select, true =>
      if ok then
        match s.rxFeedbackEvt with
        | data :: rest =>
          some ({ s with rxFeedbackEvt := rest }.send (.text (.event (EventData.new .ioChanged data))) false)
        | [] => none
      else some { s with phase := .closed }
    | _, _ => none
  | .sent ok =>
    match s.phase with
    | .send close => some { s with phase := if ok && !close then .select else .closed }
    | _ => none
  | .commanded ok =>
    match s.phase with
    | .command cmd =>
      if ok then
        let s := { s with log := s.log ++ [Effect.command cmd] }
        match cmd with
        | .getAllData handler => some { s with phase := .answer handler }
        | .action _ => some (s.send (.text (.setState ⟨true⟩)) false)
      else some { s with phase := .closed }
    | _ => none
  | .answer data =>
    match s.phase with
    | .answer _ =>
      match data with
      | some data => some (s.send (.text (.getHome data)) false)
      | none => some { s with phase := .closed }
    | _ => none

end

theorem requestOf_ne_event {parse : String → Option Serde.Json} {msg : Option Message} {request : Request}
    (h : requestOf parse msg = some request) : ∀ kind data, request ≠ .event kind data := by
  unfold requestOf at h
  split at h
  · exact Request.tryFrom_ne_event h
  · cases h
    exact nofun
  · cases h
  · cases h

/-- A request leaves the feedback where it is. -/
theorem handleRequest_rxFeedbackEvt (verify : String → String → Bool) (s : St) (request : Request) :
    (handleRequest verify s request).rxFeedbackEvt = s.rxFeedbackEvt := by
  cases request <;> simp only [handleRequest] <;> first | rfl | (split <;> rfl)

/-! ## What a step does -/

section
variable {verify : String → String → Bool} {parse : String → Option Serde.Json} {s s' : St} {l : Label}

variable (verify parse s) in
/-- Every way to take a step; `failed` is any error. -/
inductive Step : Label → St → Prop where
  | broadcast (ioData : IOData) :
    Step (.broadcast ioData) { s with rxFeedbackEvt := s.rxFeedbackEvt ++ [ioData] }
  | served (msg : Option Message) (request : Request) (hp : s.phase = .select)
    (hr : requestOf parse msg = some request) : Step (.next msg) (handleRequest verify s request)
  | ended (msg : Option Message) (hp : s.phase = .select) (hr : requestOf parse msg = none) :
    Step (.next msg) { s with phase := .closed }
  | feedback (data : IOData) (rest : List IOData) (hp : s.phase = .select) (ha : s.authenticated = true)
    (hq : s.rxFeedbackEvt = data :: rest) :
    Step (.feedback true)
      ({ s with rxFeedbackEvt := rest }.send (.text (.event (EventData.new .ioChanged data))) false)
  | sent (ok close : Bool) (hp : s.phase = .send close) :
    Step (.sent ok) { s with phase := if ok && !close then .select else .closed }
  | requested (handler : Nat) (hp : s.phase = .command (.getAllData handler)) :
    Step (.commanded true)
      { s with phase := .answer handler, log := s.log ++ [Effect.command (.getAllData handler)] }
  | commanded (ioAction : IODataAction) (hp : s.phase = .command (.action ioAction)) :
    Step (.commanded true)
      ({ s with log := s.log ++ [Effect.command (.action ioAction)] }.send (.text (.setState ⟨true⟩)) false)
  | answer (handler : Nat) (data : HomeData) (hp : s.phase = .answer handler) :
    Step (.answer (some data)) (s.send (.text (.getHome data)) false)
  | failed (l : Label) (hl : ∀ msg, l ≠ .next msg) : Step l { s with phase := .closed }

theorem Step.of_step (h : step verify parse s l = some s') : Step verify parse s l s' := by
  cases l with
  | broadcast ioData =>
    cases h
    exact .broadcast ioData
  | next msg =>
    simp only [step] at h
    split at h
    · rename_i hp
      simp only [handleNext] at h
      split at h
      · rename_i request hr
        cases h
        exact .served msg request hp hr
      · rename_i hr
        cases h
        exact .ended msg hp hr
    · cases h
  | feedback ok =>
    simp only [step] at h
    split at h
    · rename_i hp ha
      cases ok with
      | true =>
        simp only [if_true] at h
        split at h
        · cases h
          exact .feedback _ _ hp ha ‹_›
        · cases h
      | false =>
        cases h
        exact .failed _ nofun
    · cases h
  | sent ok =>
    simp only [step] at h
    split at h
    · cases h
      exact .sent ok _ ‹_›
    · cases h
  | commanded ok =>
    simp only [step] at h
    split at h
    · rename_i cmd hp
      cases ok with
      | false =>
        cases h
        exact .failed _ nofun
      | true =>
        cases cmd with
        | getAllData handler =>
          cases h
          exact .requested handler hp
        | action ioAction =>
          cases h
          exact .commanded ioAction hp
    · cases h
  | answer data =>
    simp only [step] at h
    split at h
    · rename_i handler hp
      cases data with
      | some data =>
        cases h
        exact .answer handler data hp
      | none =>
        cases h
        exact .failed _ nofun
    · cases h

end

end Websocket

end Calaos
