import Calaos.WebsocketClient
import Calaos.WebsocketSession
/-!
# A client and its session

The client of websocket_client.rs is connected to a session of websocket_server.rs. Each direction of the connection
delivers the messages in order, and either end may find it closed at any time. Neither waits for the other: requests
may be on their way while answers and events are.

Requests, actions and responses are here what their texts are read as: a request as the server reads it
(`Request.heard`), whose action is the one that its text stands for, and a response as the client does
(`Response.readBack`). Which of them are read as they were meant is said of each in `WebsocketClient` and
`JsonRoundTrip`.

Whatever the interleaving, the session reads the first of the requests that the client was given, and what it puts
into the command channel are the first of the actions asked for, none left out; the client reads the first of the
responses, and ends at one that cannot be read (`understood`). When both have nothing left to do, that is all of them.
-/
namespace Calaos

open Runs

/-- The action that a request asks for. -/
def Request.order : Request → Option IODataAction
  | .setState data => some data.action
  | _ => none

/-! ## A session does as it is told -/

namespace Websocket

open History

/-- The actions asked for. -/
def ordered (parse : String → Option Serde.Json) (past : List Label) : List IODataAction :=
  (requests parse past).filterMap Request.order

/-- What the session has still to do of them: nothing, or the one on its way, or it has refused one and is closing. -/
def Phase.Left (done wanted : List IODataAction) : Phase → Prop
  | .closed | .send true => done <+: wanted
  | .command (.action ioAction) => done ++ [ioAction] = wanted
  | .select | .send false | .command (.getAllData _) | .answer _ => done = wanted

theorem Phase.Left.first {phase : Phase} {done wanted : List IODataAction} (h : phase.Left done wanted) :
    done <+: wanted := by
  unfold Phase.Left at h
  split at h
  · exact h
  · exact h
  · exact ⟨_, h⟩
  all_goals exact h ▸ List.prefix_rfl

section
variable {verify : String → String → Bool} {parse : String → Option Serde.Json} {past : List Label} {c c' : St}
  {l : Label}

theorem ordered_append (past : List Label) (l : Label) :
    ordered parse (past ++ [l]) = ordered parse past ++ ((countedOf parse l).bind Request.order).toList := by
  rw [ordered, requests_append, List.filterMap_append]
  cases h : countedOf parse l with
  | none => rfl
  | some request => cases ho : request.order <;> simp [ordered, ho]

/-- A request is done, put on its way or refused. -/
theorem left_handleRequest {request : Request} {wanted : List IODataAction}
    (hne : ∀ kind data, request ≠ .event kind data) (hl : actions c.log = wanted) :
    (handleRequest verify c request).phase.Left (actions (handleRequest verify c request).log)
      (wanted ++ (((some request).filter counted).bind Request.order).toList) := by
  cases request with
  | pong data => simp [handleRequest, St.send, Phase.Left, actions, counted, ← hl]
  | login data =>
    simp only [handleRequest]
    split <;> simp [St.send, St.refuse, Phase.Left, actions, counted, Request.order, ← hl]
  | getHome =>
    simp only [handleRequest]
    split <;> simp [St.send, St.refuse, Phase.Left, actions, counted, Request.order, ← hl]
  | setState data =>
    have horder : (((some (Request.setState data)).filter counted).bind Request.order).toList = [data.action] := rfl
    rw [horder]
    simp only [handleRequest]
    split <;> simp [St.send, St.refuse, Phase.Left, actions, ← hl]
  | event kind data => exact absurd rfl (hne kind data)

theorem left_step (h : c.phase.Left (actions c.log) (ordered parse past)) (hs : step verify parse c l = some c') :
    c'.phase.Left (actions c'.log) (ordered parse (past ++ [l])) := by
  rw [ordered_append]
  cases Step.of_step hs with
  | served msg request hp hr =>
    rw [hp] at h
    simpa only [countedOf, hr] using left_handleRequest (requestOf_ne_event hr) h
  | ended msg hp hr =>
    rw [show countedOf parse (.next msg) = none by simp [countedOf, hr]]
    simpa [Phase.Left] using h.first
  | failed l hl =>
    have hnone : countedOf parse l = none := by
      cases l with
      | next msg => exact absurd rfl (hl msg)
      | broadcast | feedback | sent | commanded | answer => rfl
    rw [hnone]
    simpa [Phase.Left] using h.first
  | broadcast ioData => simpa [countedOf] using h
  | feedback data rest hp ha hq =>
    rw [hp] at h
    simpa [countedOf, St.send, Phase.Left, actions] using h
  | sent ok close hp =>
    rw [hp] at h
    cases close with
    | true => simpa [countedOf, Phase.Left] using h
    | false =>
      cases ok with
      | true => simpa [countedOf, Phase.Left] using h
      | false => simpa [countedOf, Phase.Left] using h.first
  | requested handler hp =>
    rw [hp] at h
    simpa [countedOf, Phase.Left, actions] using h
  | commanded ioAction hp =>
    rw [hp] at h
    simpa [countedOf, St.send, Phase.Left, actions] using h
  | answer handler data hp =>
    rw [hp] at h
    simpa [countedOf, St.send, Phase.Left, actions] using h

theorem left_run (h : run (step verify parse) init past = some c) :
    c.phase.Left (actions c.log) (ordered parse past) := by
  have hinit : init.phase.Left (actions init.log) (ordered parse []) := show actions [] = ordered parse [] from rfl
  exact run_traced (step verify parse) (I := fun past t => t.phase.Left (actions t.log) (ordered parse past))
    (fun _ _ _ _ hi hs => left_step hi hs) hinit h

/-- One response for each request, in order. -/
theorem serves_run (h : run (step verify parse) init past = some c) : Serves verify (requests parse past) c := by
  refine run_traced (step verify parse) (I := fun past t => Serves verify (requests parse past) t)
    (fun _ _ _ _ hi hs => hi.step hs) ?_ h
  exact ⟨rfl, by simp [init, Phase.serving], ⟨[], [], rfl, rfl, .nil, rfl⟩, rfl, Explained.nil⟩

/-- The log only grows. -/
theorem step_log (hs : step verify parse c l = some c') : c.log <+: c'.log := by
  cases Step.of_step hs with
  | served msg request hp hr =>
    obtain ⟨new, hlog, _⟩ := handleRequest_log verify (requestOf_ne_event hr) c
    rw [hlog]
    exact List.prefix_append _ _
  | feedback | requested | answer => exact List.prefix_append _ _
  | commanded => exact ⟨_, (List.append_assoc ..).symm⟩
  | broadcast | ended | sent | failed => exact List.prefix_rfl

end

end Websocket

/-! ## What the client reads of a response -/

instance (data : HomeData) : Decidable data.readable :=
  inferInstanceAs (Decidable (∀ room ∈ data.home, ∀ x ∈ room.items, x.ioData.readable = true))

/-- The values of events are read from their texts, and some homes are not read at all. -/
def Response.readBack : Response → Option Response
  | .event data => some (.event { data with data := ⟨data.data.id, IOValue.fromStr data.data.value.intoString⟩ })
  | .getHome data => if data.readable then some (.getHome data) else none
  | response => some response

theorem response_decode (response : Response) : Response.decode response.encode = response.readBack := by
  cases response with
  | event data => exact event_decode data
  | getHome data =>
    rw [Response.readBack]
    split
    · exact (getHome_readBack data).read ‹_›
    · exact (getHome_readBack data).fail ‹_›
  | login data =>
    obtain ⟨success⟩ := data
    cases success <;> rfl
  | setState data =>
    obtain ⟨success⟩ := data
    cases success <;> rfl

/-! ## The connection -/

namespace Conversation

open Websocket (Message Reply Effect)

/-- What a session has sent. -/
def replies (log : List Effect) : List Reply :=
  log.filterMap fun
    | .send reply => some reply
    | .command _ => none

/-- How it comes to the client. -/
def frame (codec : Serde.Codec) : Reply → Message
  | .text response => .text (toJsonString codec response)
  | .pong _ => .pong

def frames (codec : Serde.Codec) (log : List Effect) : List Message := (replies log).map (frame codec)

/-- What the client reads of it. -/
def readBack : Reply → Option Response
  | .text response => response.readBack
  | .pong _ => none

/-- The two, and how many of the messages of each have come to the other. -/
structure St where
  client : WebsocketClient.St
  session : Websocket.St
  served : Nat
  heard : Nat

inductive Label where
  | client (l : WebsocketClient.Label)
  | session (l : Websocket.Label)

/-- The message that a step of the session takes. -/
def taken : Websocket.Label → Option Message
  | .next msg => msg
  | _ => none

/-- No message is taken, or the next one. -/
def Next (link : List Message) (n : Nat) (msg : Option Message) : Prop := msg = none ∨ link[n]? = msg

instance (link : List Message) (n : Nat) (msg : Option Message) : Decidable (Next link n msg) :=
  inferInstanceAs (Decidable (_ ∨ _))

def init : St := ⟨WebsocketClient.init, Websocket.init, 0, 0⟩

section
variable (codec : Serde.Codec) (verify : String → String → Bool)

/-- A step of one of them. -/
def step (s : St) : Label → Option St
  | .client l =>
    if Next (frames codec s.session.log) s.heard l.message then
      (WebsocketClient.step codec s.client l).map fun client =>
        { s with client := client, heard := s.heard + l.message.toList.length }
    else none
  | .session l =>
    if Next s.client.sent s.served (taken l) then
      (Websocket.step verify codec.parse s.session l).map fun session =>
        { s with session := session, served := s.served + (taken l).toList.length }
    else none

end

/-! ## Each of them runs as it does alone -/

def clientLabels (past : List Label) : List WebsocketClient.Label :=
  past.filterMap fun
    | .client l => some l
    | .session _ => none

def sessionLabels (past : List Label) : List Websocket.Label :=
  past.filterMap fun
    | .session l => some l
    | .client _ => none

/-- The requests that the client was given. -/
def asked (past : List Label) : List Request := WebsocketClient.asked (clientLabels past)

/-- The client and the session have run, on the first of each other's messages. -/
structure Linked (codec : Serde.Codec) (verify : String → String → Bool) (past : List Label) (s : St) : Prop where
  client : run (WebsocketClient.step codec) WebsocketClient.init (clientLabels past) = some s.client
  session : run (Websocket.step verify codec.parse) Websocket.init (sessionLabels past) = some s.session
  served : (sessionLabels past).filterMap taken = s.client.sent.take s.served ∧ s.served ≤ s.client.sent.length
  heard : (clientLabels past).filterMap WebsocketClient.Label.message = (frames codec s.session.log).take s.heard ∧
    s.heard ≤ (frames codec s.session.log).length

section
variable {codec : Serde.Codec} {verify : String → String → Bool} {past : List Label} {s s' : St} {l : Label}

/-- The messages taken after one more. -/
theorem Next.take {link seen : List Message} {n : Nat} {msg : Option Message} (h : Next link n msg)
    (hseen : seen = link.take n ∧ n ≤ link.length) :
    seen ++ msg.toList = link.take (n + msg.toList.length) ∧ n + msg.toList.length ≤ link.length := by
  obtain ⟨rfl, hle⟩ := hseen
  rcases h with rfl | h
  · simpa using hle
  · cases msg with
    | none => simpa using hle
    | some msg =>
      obtain ⟨hlt, _⟩ := List.getElem?_eq_some_iff.1 h
      exact ⟨by simp [List.take_add_one, h], hlt⟩

/-- More messages on the way do not matter. -/
theorem take_grows {link link' seen : List Message} {n : Nat} (h : link <+: link')
    (hseen : seen = link.take n ∧ n ≤ link.length) : seen = link'.take n ∧ n ≤ link'.length := by
  obtain ⟨new, rfl⟩ := h
  rw [List.take_append_of_le_length hseen.2, List.length_append]
  exact ⟨hseen.1, by omega⟩

theorem Linked.step (h : Linked codec verify past s) (hs : Conversation.step codec verify s l = some s') :
    Linked codec verify (past ++ [l]) s' := by
  cases l with
  | client l =>
    simp only [Conversation.step] at hs
    split at hs
    · rename_i hnext
      obtain ⟨client, hc, rfl⟩ := Option.map_eq_some_iff.1 hs
      have hclient : clientLabels (past ++ [.client l]) = clientLabels past ++ [l] := List.filterMap_append
      have hsession : sessionLabels (past ++ [.client l]) = sessionLabels past := by simp [sessionLabels]
      have hgrows : s.client.sent <+: client.sent := by
        rw [(WebsocketClient.step_spec hc).1]
        exact List.prefix_append _ _
      refine ⟨?_, by rw [hsession]; exact h.session, by rw [hsession]; exact take_grows hgrows h.served, ?_⟩
      · rw [hclient]
        exact (run_snoc _).2 ⟨_, h.client, hc⟩
      · rw [hclient, WebsocketClient.filterMap_snoc]
        exact hnext.take h.heard
    · cases hs
  | session l =>
    simp only [Conversation.step] at hs
    split at hs
    · rename_i hnext
      obtain ⟨session, hc, rfl⟩ := Option.map_eq_some_iff.1 hs
      have hclient : clientLabels (past ++ [.session l]) = clientLabels past := by simp [clientLabels]
      have hsession : sessionLabels (past ++ [.session l]) = sessionLabels past ++ [l] := List.filterMap_append
      have hgrows : frames codec s.session.log <+: frames codec session.log :=
        ((Websocket.step_log hc).filterMap _).map _
      refine ⟨by rw [hclient]; exact h.client, ?_, ?_, by rw [hclient]; exact take_grows hgrows h.heard⟩
      · rw [hsession]
        exact (run_snoc _).2 ⟨_, h.session, hc⟩
      · rw [hsession, WebsocketClient.filterMap_snoc]
        exact hnext.take h.served
    · cases hs

theorem run_linked (h : run (Conversation.step codec verify) init past = some s) : Linked codec verify past s :=
  run_traced (Conversation.step codec verify) (I := fun past t => Linked codec verify past t)
    (fun _ _ _ _ hi hs => hi.step hs)
    ⟨rfl, rfl, ⟨rfl, Nat.zero_le _⟩, ⟨rfl, Nat.zero_le _⟩⟩ h

end

/-! ## What each has of the other -/

/-- The requests that have a text. -/
def written (requests : List Request) : List Request := requests.filter fun request => request.encode.isSome

/-- The requests that the session has read. -/
def received (codec : Serde.Codec) (past : List Label) : List Request :=
  ((sessionLabels past).filterMap taken).filterMap fun msg => Websocket.requestOf codec.parse (some msg)

/-- Nothing is on its way, and both wait for more. -/
structure Idle (codec : Serde.Codec) (s : St) : Prop where
  client : s.client.phase = .select
  session : s.session.phase = .select
  served : s.served = s.client.sent.length
  heard : s.heard = (frames codec s.session.log).length

/-- They understand each other, as far as the texts go: everything is as it is read. -/
structure Conversed (codec : Serde.Codec) (verify : String → String → Bool) (past : List Label) (s : St) : Prop where
  /-- The session has read the first of the requests, each as its text is read. -/
  received : received codec past = ((written (asked past)).take s.served).map Request.heard
  /-- Its actions are the first of those that the texts ask for, -/
  actions : Websocket.actions s.session.log <+: ((asked past).map Request.heard).filterMap Request.order
  /-- and it has answered what it has read, as it has read it, but for the request that it is busy with. -/
  answered : ∃ done pending, (Conversation.received codec past).filter Websocket.counted = done ++ pending ∧
    pending.length ≤ 1 ∧ Websocket.Answered verify done (Websocket.responses s.session.log)
  /-- The client has read the first of the responses, each as its text is read, -/
  read : s.client.read = ((replies s.session.log).take s.heard).filterMap readBack
  /-- and ends at one that cannot be read. -/
  readable : s.client.phase ≠ .ended → ∀ response, .text response ∈ (replies s.session.log).take s.heard →
    response.readBack.isSome = true
  idle : Idle codec s →
    Websocket.actions s.session.log = ((asked past).map Request.heard).filterMap Request.order ∧
    Websocket.Answered verify (((asked past).map Request.heard).filter Websocket.counted)
      (Websocket.responses s.session.log) ∧
    s.client.read = (replies s.session.log).filterMap readBack

section
variable {codec : Serde.Codec} {verify : String → String → Bool} {past : List Label} {s : St}

/-- One message for each request that has a text. -/
theorem sent_written (requests : List Request) : requests.filterMap (WebsocketClient.messageOf codec) =
    (written requests).map fun request => .text ((request.toJsonString codec).getD "") := by
  induction requests with
  | nil => rfl
  | cons request requests ih =>
    unfold written at ih ⊢
    cases he : request.encode with
    | none => simpa [WebsocketClient.messageOf, Request.toJsonString, he] using ih
    | some json => simpa [WebsocketClient.messageOf, Request.toJsonString, he] using ih

/-- The session reads the requests that were written. -/
theorem Linked.reads (h : Linked codec verify past s)
    (hup : ∀ request ∈ asked past, ∀ json, request.encode = some json → codec.parse (codec.print json) = some json) :
    received codec past = ((written (asked past)).take s.served).map Request.heard ∧
      s.client.sent.length = (written (asked past)).length := by
  have hsent := (WebsocketClient.run_ran h.client).sent
  rw [show WebsocketClient.asked (clientLabels past) = asked past from rfl, sent_written] at hsent
  refine ⟨?_, by rw [hsent, List.length_map]⟩
  rw [Conversation.received, h.served.1, hsent, ← List.map_take, List.filterMap_map, ← List.filterMap_eq_map]
  refine List.filterMap_congr fun request hmem => ?_
  obtain ⟨hasked, hsome⟩ := List.mem_filter.1 (List.mem_of_mem_take hmem)
  obtain ⟨json, hjson⟩ := Option.isSome_iff_exists.1 hsome
  simp only [Function.comp_apply, Request.toJsonString, hjson, Option.map_some, Option.getD_some, Websocket.requestOf]
  rw [Request.tryFrom, hup request hasked json hjson, Option.bind_some, request_decode hjson]

/-- The requests that count are among those read. -/
theorem requests_eq (ls : List Websocket.Label) : Websocket.requests codec.parse ls =
    ((ls.filterMap taken).filterMap fun msg => Websocket.requestOf codec.parse (some msg)).filter Websocket.counted := by
  have hcounted : ∀ l, Websocket.countedOf codec.parse l =
      ((taken l).bind fun msg => Websocket.requestOf codec.parse (some msg)).filter Websocket.counted := by
    intro l
    cases l with
    | next msg => cases msg <;> rfl
    | broadcast | feedback | sent | commanded | answer => rfl
  rw [Websocket.requests, List.filterMap_filterMap, List.filter_filterMap]
  exact List.filterMap_congr fun l _ => hcounted l

theorem order_counted (requests : List Request) :
    (requests.filter Websocket.counted).filterMap Request.order = requests.filterMap Request.order := by
  rw [List.filterMap_filter]
  exact List.filterMap_congr fun request _ => by cases request <;> rfl

/-- What has no text asks for no action. -/
theorem order_written (requests : List Request) :
    ((written requests).map Request.heard).filterMap Request.order =
      (requests.map Request.heard).filterMap Request.order := by
  rw [List.filterMap_map, List.filterMap_map, written, List.filterMap_filter]
  exact List.filterMap_congr fun request _ => by cases request <;> rfl

theorem ordered_eq (past : List Label) :
    Websocket.ordered codec.parse (sessionLabels past) = (received codec past).filterMap Request.order := by
  rw [Websocket.ordered, requests_eq, order_counted]
  rfl

/-- What the client reads in a message. -/
theorem responseIn_frame {reply : Reply} (hdown : ∀ response, reply = .text response →
    codec.parse (toJsonString codec response) = some response.encode) :
    WebsocketClient.responseIn codec (frame codec reply) = readBack reply := by
  cases reply with
  | pong data => rfl
  | text response =>
    rw [frame, WebsocketClient.responseIn, Response.tryFrom, hdown response rfl, Option.bind_some, response_decode]
    rfl

/-- **A client and its session understand each other**, whatever the interleaving, as long as JSON is read as it was
written: each reads what the texts of the other say. -/
theorem understood (h : run (step codec verify) init past = some s)
    (hup : ∀ request ∈ asked past, ∀ json, request.encode = some json → codec.parse (codec.print json) = some json)
    (hdown : ∀ response, .text response ∈ replies s.session.log →
      codec.parse (toJsonString codec response) = some response.encode) : Conversed codec verify past s := by
  have hl := run_linked h
  obtain ⟨hreceived, hlength⟩ := hl.reads hup
  have hran := WebsocketClient.run_ran hl.client
  have hleft := Websocket.left_run hl.session
  obtain ⟨done, pending, hrequests, howes, hanswered, _⟩ := (Websocket.serves_run hl.session).answered
  rw [requests_eq] at hrequests
  rw [ordered_eq, hreceived] at hleft
  have hread : s.client.read = ((replies s.session.log).take s.heard).filterMap readBack := by
    rw [hran.read, hl.heard.1, frames, ← List.map_take, List.filterMap_map]
    refine List.filterMap_congr fun reply hmem => responseIn_frame ?_
    rintro response rfl
    exact hdown response (List.mem_of_mem_take hmem)
  refine ⟨hreceived, ?_, ⟨done, pending, hrequests, howes.length, hanswered⟩, hread, ?_, ?_⟩
  · refine hleft.first.trans ?_
    rw [← order_written (asked past)]
    exact ((List.take_prefix _ _).map _).filterMap _
  · intro hopen response hmem
    have hframe : frame codec (.text response) ∈ (clientLabels past).filterMap WebsocketClient.Label.message := by
      rw [hl.heard.1, frames, ← List.map_take]
      exact List.mem_map_of_mem hmem
    obtain ⟨l, hlabel, hmessage⟩ := List.mem_filterMap.1 hframe
    have hfine : WebsocketClient.Fine codec l := by
      by_contra hbad
      exact hopen (hran.ended.2 ⟨l, hlabel, hbad⟩)
    cases l with
    | ask | sent => cases hmessage
    | next msg =>
      cases hmessage
      have hsome : WebsocketClient.responseIn codec (frame codec (.text response)) = readBack (.text response) := by
        refine responseIn_frame ?_
        rintro response ⟨⟩
        exact hdown _ (List.mem_of_mem_take hmem)
      rw [← show readBack (.text response) = response.readBack from rfl, ← hsome]
      exact hfine
  · intro hidle
    have hall : written (asked past) = asked past := by
      refine List.filter_eq_self.2 fun request hmem => ?_
      obtain ⟨l, hlabel, hask⟩ := List.mem_filterMap.1 hmem
      have hfine : WebsocketClient.Fine codec l := by
        by_contra hbad
        have hended := hran.ended.2 ⟨l, hlabel, hbad⟩
        rw [hidle.client] at hended
        cases hended
      cases l with
      | next | sent => cases hask
      | ask request' =>
        cases hask
        simpa [WebsocketClient.Fine, Request.toJsonString] using hfine
    have htake : (written (asked past)).take s.served = asked past := by
      rw [hidle.served, hlength, List.take_length, hall]
    rw [htake] at hleft hreceived
    rw [hidle.session] at hleft howes
    refine ⟨hleft, ?_, ?_⟩
    · rw [show pending = [] from howes, List.append_nil] at hrequests
      rw [← hreceived]
      exact hrequests ▸ hanswered
    · rw [hread, hidle.heard, frames, List.length_map, List.take_length]

end

/-! ## A visit -/

section
open Serde

mutual

/-- A tree as text, where there is nothing to escape. -/
def plain : Json → String
  | .null => "null"
  | .bool b => if b then "true" else "false"
  | .num n => toString n.val
  | .float lexeme => lexeme
  | .str s => "\"" ++ s ++ "\""
  | .arr items => "[" ++ ",".intercalate (plainItems items) ++ "]"
  | .obj entries => "\x7b" ++ ",".intercalate (plainEntries entries) ++ "\x7d"

def plainItems : List Json → List String
  | [] => []
  | json :: items => plain json :: plainItems items

def plainEntries : Entries → List String
  | [] => []
  | (key, json) :: entries => ("\"" ++ key ++ "\":" ++ plain json) :: plainEntries entries

end

/-- What a codec does with these trees. -/
def among (trees : List Json) : Codec where
  print := plain
  parse text := trees.find? fun json => plain json = text

end

def login : Request := .login ⟨"alice", "secret"⟩

/-- A text that is read as a boolean. -/
def switchOn : Request := .setState ⟨"lamp", .setValue (.string "true")⟩

def visitCodec : Serde.Codec :=
  among (login.encode.toList ++ switchOn.encode.toList ++ [Response.encode (.login ⟨true⟩), Response.encode (.setState ⟨true⟩)])

/-- What the two say to each other. -/
def loginText : String := "\x7b\"msg\":\"login\",\"data\":\x7b\"cn_user\":\"alice\",\"cn_pass\":\"secret\"\x7d\x7d"

def welcomeText : String := "\x7b\"msg\":\"login\",\"data\":\x7b\"success\":\"true\"\x7d\x7d"

def switchText : String := "\x7b\"msg\":\"set_state\",\"data\":\x7b\"id\":\"lamp\",\"value\":\"true\"\x7d\x7d"

def doneText : String := "\x7b\"msg\":\"set_state\",\"data\":\x7b\"success\":\"true\"\x7d\x7d"

/-- Alice logs in, and switches the lamp on. -/
def visit : List Label :=
  [.client (.ask (some login)), .client (.sent true), .session (.next (some (.text loginText))), .session (.sent true),
    .client (.next (some (.text welcomeText))), .client (.ask (some switchOn)), .client (.sent true),
    .session (.next (some (.text switchText))), .session (.commanded true), .session (.sent true),
    .client (.next (some (.text doneText)))]

/-- Both have read all, and the lamp goes on. -/
theorem understood_visit : ∃ s, run (step visitCodec (verifyLogin (some "alice") (some "secret"))) init visit = some s ∧
    Idle visitCodec s ∧ Websocket.actions s.session.log = [⟨"lamp", .setValue (.bool true)⟩] ∧
    Conversed visitCodec (verifyLogin (some "alice") (some "secret")) visit s := by
  have hrun : run (step visitCodec (verifyLogin (some "alice") (some "secret"))) init visit =
      some ⟨⟨.select, [.text loginText, .text switchText], [.login ⟨true⟩, .setState ⟨true⟩]⟩,
        ⟨true, .select, [], 0, [.send (.text (.login ⟨true⟩)), .command (.action ⟨"lamp", .setValue (.bool true)⟩),
          .send (.text (.setState ⟨true⟩))]⟩, 2, 2⟩ := rfl
  refine ⟨_, hrun, ⟨rfl, rfl, rfl, rfl⟩, rfl, understood hrun ?_ ?_⟩
  · intro request hmem json hjson
    rw [show asked visit = [login, switchOn] from rfl, List.mem_cons, List.mem_singleton] at hmem
    rcases hmem with rfl | rfl <;> cases hjson <;> rfl
  · intro response hmem
    simp only [replies, List.filterMap_cons, List.filterMap_nil, List.mem_cons, List.not_mem_nil, or_false,
      Websocket.Reply.text.injEq] at hmem
    rcases hmem with rfl | rfl <;> rfl

end Conversation

end Calaos
