import Calaos.JsonRoundTrip
import Calaos.Runs
import Calaos.Websocket
/-!
# The websocket client (core/src/websocket_client.rs)

| here | there |
| --- | --- |
| `Request.encode`         | the derived `Serialize` of `Request`, an error for the skipped variant |
| `Phase`, `St`, `Label`, `step` | `run` after the handshake; a phase is a place where it waits |

The server reads every request that the client can write (`request_arrives`). An action is written as its text, so
that an action has to be one that its text stands for: a text that looks like a number is read as one. What the server
has read once it reads again.

`run` drops the responses that it has read; `St.read` is the list of them.
-/
namespace Calaos

open Serde

/-! ## Requests -/

/-- A `u8` of a `Vec<u8>`. -/
def ofUInt8 (n : UInt8) : Json := .num ⟨n.toNat, by omega, by have := n.toNat_lt; omega⟩

/-- `#[serde(into = "String")]`. -/
def IOAction.encode (action : IOAction) : Json := .str action.intoString

def LoginData.encode (data : LoginData) : Json := .obj [("cn_user", .str data.cnUser), ("cn_pass", .str data.cnPass)]

def SetStateData.encode (data : SetStateData) : Json := .obj [("id", .str data.id), ("value", data.value.encode)]

def Request.encode : Request → Option Json
  | .pong data => some (.obj [("msg", .str "Pong"), ("data", .arr (data.map ofUInt8))])
  | .login data => some (.obj [("msg", .str "login"), ("data", data.encode)])
  | .getHome => some (.obj [("msg", .str "get_home")])
  | .setState data => some (.obj [("msg", .str "set_state"), ("data", data.encode)])
  | .event _ _ => none

/-- What the server reads. -/
def Request.heard : Request → Request
  | .setState data => .setState ⟨data.id, IOAction.fromStr data.value.intoString⟩
  | request => request

/-- An action that its text stands for. -/
def IOAction.Legible : IOAction → Prop
  | .setValue (.string text) =>
    parseI32 text = none ∧ text ∉ [toggleStr, stopStr, "false", "true", upStr, downStr]
  | .setValue value => value.moving = false
  | .toggle | .stop => True

def Request.Legible : Request → Prop
  | .setState data => data.value.Legible
  | _ => True

section
attribute [local simp] field required De.struct De.tagged variantName De.unit De.string

theorem unsigned_ofUInt8 (n : UInt8) : De.unsigned 8 (ofUInt8 n) = some n.toNat := by
  have := n.toNat_lt
  simp only [De.unsigned, ofUInt8]
  rw [if_pos (by omega)]
  simp

theorem pongData_decode (data : List UInt8) :
    De.vec (fun j => (De.unsigned 8 j).map UInt8.ofNat) (.arr (data.map ofUInt8)) = some data := by
  have hitem : ∀ n ∈ data, ReadBack (fun j => (De.unsigned 8 j).map UInt8.ofNat) (ofUInt8 n) n True := by
    intro n _
    exact ⟨fun _ => by simp [unsigned_ofUInt8], fun h => absurd trivial h⟩
  exact (ReadBack.vec hitem).read fun _ _ => trivial

theorem request_decode {request : Request} {json : Json} (h : request.encode = some json) :
    Request.decode json = some request.heard := by
  cases request with
  | pong data =>
    cases h
    simp -implicitDefEqProofs [Request.decode, Request.heard, dataVariant, pongData_decode]
  | login data =>
    cases h
    simp -implicitDefEqProofs [Request.decode, Request.heard, dataVariant, LoginData.decode, LoginData.encode]
  | getHome =>
    cases h
    simp -implicitDefEqProofs [Request.decode, Request.heard]
  | setState data =>
    cases h
    simp -implicitDefEqProofs [Request.decode, Request.heard, dataVariant, SetStateData.decode, SetStateData.encode,
      IOAction.encode, IOAction.decode]
  | event kind data => cases h

end

/-! ## Which actions arrive -/

theorem fromStr_eq_string {text : String} :
    IOValue.fromStr text = .string text ↔ parseI32 text = none ∧ text ∉ ["false", "true", upStr, downStr] := by
  unfold IOValue.fromStr
  cases parseI32 text with
  | some i => simp
  | none =>
    by_cases hf : text = "false"
    · simp [hf]
    · by_cases ht : text = "true"
      · simp [ht]
      · by_cases hu : text = upStr
        · simp [hu, upStr]
        · by_cases hd : text = downStr
          · simp [hd, upStr, downStr]
          · simp [hf, ht, hu, hd]

/-- The text of a value that is no free text is no word of an action. -/
theorem action_intoString {value : IOValue} (h : ∀ text, value ≠ .string text) :
    IOAction.fromStr value.intoString = .setValue (IOValue.fromStr value.intoString) := by
  cases value with
  | bool b => cases b <;> decide
  | int i =>
    rw [IOValue.intoString, Calaos.fromStr_toString]
    exact IOAction.fromStr_toString i
  | string text => exact absurd rfl (h text)
  | shutter state => cases state <;> decide

theorem action_fromStr {text : String} (ht : text ≠ toggleStr) (hs : text ≠ stopStr) :
    IOAction.fromStr text = .setValue (IOValue.fromStr text) := by
  simp only [IOAction.fromStr, ht, hs, if_false]

/-- An action is read as it was written exactly when it is legible. -/
theorem fromStr_eq_iff (action : IOAction) : IOAction.fromStr action.intoString = action ↔ action.Legible := by
  have hvalue : ∀ value : IOValue, (∀ text, value ≠ .string text) →
      (IOAction.fromStr value.intoString = .setValue value ↔ value.moving = false) := by
    intro value h
    rw [action_intoString h, IOAction.setValue.injEq]
    exact fromStr_intoString h
  cases action with
  | toggle => exact iff_of_true (by decide) trivial
  | stop => exact iff_of_true (by decide) trivial
  | setValue value =>
    cases value with
    | bool b => exact hvalue (.bool b) nofun
    | int i => exact hvalue (.int i) nofun
    | shutter state => exact hvalue (.shutter state) nofun
    | string text =>
      simp only [IOAction.intoString, IOValue.intoString, IOAction.Legible]
      by_cases ht : text = toggleStr
      · simp [ht, IOAction.fromStr]
      · by_cases hs : text = stopStr
        · simp [hs, IOAction.fromStr, toggleStr, stopStr]
        · rw [action_fromStr ht hs, IOAction.setValue.injEq, fromStr_eq_string]
          simp [ht, hs]

/-- Reading, writing and reading again changes nothing: what was read is legible. -/
theorem fromStr_legible (text : String) : (IOAction.fromStr text).Legible := by
  rw [← fromStr_eq_iff]
  by_cases ht : text = toggleStr
  · subst ht
    rfl
  by_cases hs : text = stopStr
  · subst hs
    rfl
  rw [action_fromStr ht hs, IOAction.intoString]
  rcases intoString_fromStr text with ⟨i, hi⟩ | he
  · rw [hi]
    exact IOAction.fromStr_toString i
  · rw [he, action_fromStr ht hs]

/-- `to_json_string`. -/
def Request.toJsonString (codec : Codec) (request : Request) : Option String := request.encode.map codec.print

/-- **Every request but an event is written, and the server reads it**: as it is, if it is legible, and else with the
action that the text of the action stands for. Whatever it has read is legible. -/
theorem request_arrives (codec : Codec) (request : Request)
    (htext : ∀ json, request.encode = some json → codec.parse (codec.print json) = some json) :
    (request.toJsonString codec = none ↔ ∃ kind data, request = .event kind data) ∧
    (∀ text, request.toJsonString codec = some text → Request.tryFrom codec.parse text = some request.heard) ∧
    (request.heard = request ↔ request.Legible) ∧ request.heard.Legible := by
  refine ⟨?_, ?_, ?_, ?_⟩
  · cases request <;> simp [Request.toJsonString, Request.encode]
  · intro text h
    obtain ⟨json, hjson, rfl⟩ := Option.map_eq_some_iff.1 h
    rw [Request.tryFrom, htext json hjson, Option.bind_some, request_decode hjson]
  · cases request with
    | setState data =>
      rw [Request.heard, Request.Legible, ← fromStr_eq_iff]
      obtain ⟨id, value⟩ := data
      simp
    | pong | login | getHome | event => exact iff_of_true rfl trivial
  · cases request with
    | setState data => exact fromStr_legible data.value.intoString
    | pong | login | getHome | event => trivial

/-- The dimmer is to show the text `7`. -/
def seven : Request := .setState ⟨"dimmer", .setValue (.string "7")⟩

def sevenTree : Json :=
  .obj [("msg", .str "set_state"), ("data", .obj [("id", .str "dimmer"), ("value", .str "7")])]

def sevenText : String := "\x7b\"msg\":\"set_state\",\"data\":\x7b\"id\":\"dimmer\",\"value\":\"7\"\x7d\x7d"

/-- It is asked to show the number. -/
theorem request_arrives_seven : seven.toJsonString (Codec.only sevenText sevenTree) = some sevenText ∧
    Request.tryFrom (Codec.only sevenText sevenTree).parse sevenText =
      some (.setState ⟨"dimmer", .setValue (.int 7)⟩) ∧ ¬ seven.Legible := by
  have htext : ∀ json, seven.encode = some json →
      (Codec.only sevenText sevenTree).parse ((Codec.only sevenText sevenTree).print json) = some json := by
    intro json hjson
    cases hjson
    rfl
  obtain ⟨_, hread, hlegible, _⟩ := request_arrives (Codec.only sevenText sevenTree) seven htext
  exact ⟨rfl, hread sevenText rfl, fun h => absurd (hlegible.2 h) (by decide)⟩

/-! ## The loop -/

namespace WebsocketClient

open Runs
open Websocket (Message)

/-- Where `run` waits. -/
inductive Phase where
  | select
  | send
  | ended
deriving DecidableEq

/-- The wait, what `ws_stream.send` got and what `Response::try_from` gave. A message counts from the call, which may
fail half way. -/
structure St where
  phase : Phase
  sent : List Message
  read : List Response

/-- A wait ends. A missing message is the end of the stream or an error, a missing request a closed channel. -/
inductive Label where
  | next (msg : Option Message)
  | ask (request : Option Request)
  | sent (ok : Bool)

def init : St := ⟨.select, [], []⟩

section
variable (codec : Codec)

/-- `match msg`. -/
def handleNext (s : St) : Option Message → St
  | some (.text msgStr) =>
    match Response.tryFrom codec.parse msgStr with
    | some response => { s with read := s.read ++ [response] }
    | none => { s with phase := .ended }
  | some (.ping _) | some .pong => s
  | some .binary | some .close | some .frame | none => { s with phase := .ended }

/-- The text of a request, if there is one, goes out. -/
def handleRequest (s : St) (request : Option Request) : St :=
  match request.bind (Request.toJsonString codec) with
  | some text => { s with phase := .send, sent := s.sent ++ [.text text] }
  | none => { s with phase := .ended }

/-- One step of `run`. -/
def step (s : St) : Label → Option St
  | .next msg => if s.phase = .select then some (handleNext codec s msg) else none
  | .ask request => if s.phase = .select then some (handleRequest codec s request) else none
  | .sent ok => if s.phase = .send then some { s with phase := if ok then .select else .ended } else none

end

/-! ## What it has done -/

/-- The message that comes in. -/
def Label.message : Label → Option Message
  | .next msg => msg
  | .ask _ | .sent _ => none

/-- The request that goes out. -/
def Label.request : Label → Option Request
  | .ask request => request
  | .next _ | .sent _ => none

/-- The requests that were given to the client. -/
def asked (ls : List Label) : List Request := ls.filterMap Label.request

/-- The message of a request. -/
def messageOf (codec : Codec) (request : Request) : Option Message := (request.toJsonString codec).map .text

/-- The response in a message. -/
def responseIn (codec : Codec) : Message → Option Response
  | .text msgStr => Response.tryFrom codec.parse msgStr
  | _ => none

/-- After such a wait the loop goes on. -/
def Fine (codec : Codec) : Label → Prop
  | .next (some (.text msgStr)) => (Response.tryFrom codec.parse msgStr).isSome = true
  | .next (some (.ping _)) | .next (some .pong) => True
  | .next _ => False
  | .ask (some request) => (request.toJsonString codec).isSome = true
  | .ask none => False
  | .sent ok => ok = true

/-- The texts of the requests are out, one by one, every response is read, and nothing has failed unless it has
ended. -/
structure Ran (codec : Codec) (past : List Label) (s : St) : Prop where
  sent : s.sent = (asked past).filterMap (messageOf codec)
  read : s.read = (past.filterMap Label.message).filterMap (responseIn codec)
  ended : s.phase = .ended ↔ ∃ l ∈ past, ¬ Fine codec l

section
variable {codec : Codec} {past : List Label} {s s' : St} {l : Label}

theorem filterMap_snoc {α β : Type} (f : α → Option β) (as : List α) (a : α) :
    (as ++ [a]).filterMap f = as.filterMap f ++ (f a).toList := by
  rw [List.filterMap_append]
  cases h : f a <;> simp [h]

theorem filterMap_append_toList {β γ : Type} (g : β → Option γ) (bs : List β) (b : Option β) :
    (bs ++ b.toList).filterMap g = bs.filterMap g ++ (b.bind g).toList := by
  cases b with
  | none => simp
  | some b => exact filterMap_snoc g bs b

variable (codec) in
theorem handleNext_spec (s : St) (hp : s.phase = .select) (msg : Option Message) :
    (handleNext codec s msg).sent = s.sent ∧
    (handleNext codec s msg).read = s.read ++ (msg.bind (responseIn codec)).toList ∧
    ((handleNext codec s msg).phase = .ended ↔ ¬ Fine codec (.next msg)) := by
  cases msg with
  | none => simp [handleNext, Fine]
  | some msg =>
    cases msg with
    | text msgStr =>
      cases hr : Response.tryFrom codec.parse msgStr <;> simp [handleNext, responseIn, Fine, hr, hp]
    | ping | pong => simp [handleNext, responseIn, Fine, hp]
    | binary | close | frame => simp [handleNext, responseIn, Fine]

variable (codec) in
theorem handleRequest_spec (s : St) (request : Option Request) :
    (handleRequest codec s request).sent = s.sent ++ (request.bind (messageOf codec)).toList ∧
    (handleRequest codec s request).read = s.read ∧
    ((handleRequest codec s request).phase = .ended ↔ ¬ Fine codec (.ask request)) := by
  cases request with
  | none => simp [handleRequest, Fine]
  | some request =>
    cases ht : request.toJsonString codec <;> simp [handleRequest, messageOf, Fine, ht]

/-- All that a step does. It is the last one if it fails. -/
theorem step_spec (h : step codec s l = some s') :
    s'.sent = s.sent ++ (l.request.bind (messageOf codec)).toList ∧
    s'.read = s.read ++ (l.message.bind (responseIn codec)).toList ∧
    s.phase ≠ .ended ∧ (s'.phase = .ended ↔ ¬ Fine codec l) := by
  cases l with
  | next msg =>
    obtain ⟨hp, rfl⟩ := Option.ite_none_right_eq_some.1 h |>.imp_right Option.some.inj
    obtain ⟨hsent, hread, hended⟩ := handleNext_spec codec s hp msg
    exact ⟨by rw [hsent]; exact (List.append_nil _).symm, hread, by simp [hp], hended⟩
  | ask request =>
    obtain ⟨hp, rfl⟩ := Option.ite_none_right_eq_some.1 h |>.imp_right Option.some.inj
    obtain ⟨hsent, hread, hended⟩ := handleRequest_spec codec s request
    exact ⟨hsent, by rw [hread]; exact (List.append_nil _).symm, by simp [hp], hended⟩
  | sent ok =>
    obtain ⟨hp, rfl⟩ := Option.ite_none_right_eq_some.1 h |>.imp_right Option.some.inj
    refine ⟨(List.append_nil _).symm, (List.append_nil _).symm, by simp [hp], ?_⟩
    cases ok <;> simp [Fine]

theorem Ran.step (h : Ran codec past s) (hs : step codec s l = some s') : Ran codec (past ++ [l]) s' := by
  obtain ⟨hsent, hread, hopen, hended⟩ := step_spec hs
  refine ⟨?_, ?_, ?_⟩
  · rw [hsent, h.sent, asked, asked, filterMap_snoc, filterMap_append_toList]
  · rw [hread, h.read, filterMap_snoc, filterMap_append_toList]
  · have hfine : ¬ ∃ l ∈ past, ¬ Fine codec l := fun hbad => hopen (h.ended.2 hbad)
    rw [hended]
    constructor
    · exact fun hbad => ⟨l, by simp, hbad⟩
    · rintro ⟨l', hmem, hbad⟩
      rcases List.mem_append.1 hmem with hmem | hmem
      · exact absurd ⟨l', hmem, hbad⟩ hfine
      · rwa [List.mem_singleton.1 hmem] at hbad

theorem run_ran (h : run (WebsocketClient.step codec) init past = some s) : Ran codec past s :=
  run_traced (WebsocketClient.step codec) (I := fun past t => Ran codec past t) (fun _ _ _ _ hi hs => hi.step hs)
    ⟨rfl, rfl, by simp [init]⟩ h

end

end WebsocketClient

end Calaos
