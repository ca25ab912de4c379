import Calaos.LoginGate
import Calaos.History
/-!
# A websocket session loses and duplicates nothing

What a connection has done is read off its log in three ways: the responses that are no events answer the
requests one by one (`Answered`), the actions are those of the `SetState` requests that were answered with
success, and the events are the broadcasts in order. `Session` says so of every state; `Owes` is the one
request that may be on its way.
-/
namespace Calaos.Websocket

open Runs History

/-! ## What goes in and what comes out -/

/-- A request that is answered with a response. -/
def counted : Request → Bool
  | .login _ | .getHome | .setState _ => true
  | _ => false

/-- The counted request in a message. -/
def countedOf (parse : String → Option Serde.Json) : Label → Option Request
  | .next msg => (requestOf parse msg).filter counted
  | _ => none

/-- The `Login`, `GetHome` and `SetState` requests received. -/
def requests (parse : String → Option Serde.Json) (past : List Label) : List Request :=
  past.filterMap (countedOf parse)

/-- The values broadcast since the connection subscribed. -/
def broadcasts (past : List Label) : List IOData :=
  past.filterMap fun
    | .broadcast ioData => some ioData
    | _ => none

/-- The responses sent that are no events. -/
def responses (log : List Effect) : List Response :=
  log.filterMap fun
    | .send (.text (.event _)) => none
    | .send (.text response) => some response
    | _ => none

/-- The events sent. -/
def events (log : List Effect) : List EventData :=
  log.filterMap fun
    | .send (.text (.event data)) => some data
    | _ => none

/-- The actions put on the command channel. -/
def actions (log : List Effect) : List IODataAction :=
  log.filterMap fun
    | .command (.action ioAction) => some ioAction
    | _ => none

/-- The success of a `SetState`. -/
def success : Effect := .send (.text (.setState ⟨true⟩))

/-- How many of them were sent. -/
def successes (log : List Effect) : Nat := log.countP fun e => decide (e = success)

/-! ## What answers what -/

section
variable (verify : String → String → Bool)

/-- Whether the client is logged in after these requests. -/
def granted (requests : List Request) : Bool :=
  requests.foldl (fun auth request =>
    match request with
    | .login data => verify data.cnUser data.cnPass
    | _ => auth) false

/-- The response to a request, for a client who is logged in or not. -/
def Answers (auth : Bool) : Request → Response → Prop
  | .login data, response => response = .login ⟨verify data.cnUser data.cnPass⟩
  | .getHome, response => if auth then ∃ data, response = .getHome data else response = .login ⟨false⟩
  | .setState _, response => response = if auth then .setState ⟨true⟩ else .login ⟨false⟩
  | _, _ => False

/-- One response for each request, in order. -/
inductive Answered : List Request → List Response → Prop
  | nil : Answered [] []
  | snoc {requests : List Request} {responses : List Response} {request : Request} {response : Response}
    (h : Answered requests responses) (ha : Answers verify (granted verify requests) request response) :
    Answered (requests ++ [request]) (responses ++ [response])

end

/-- The actions of the `SetState` requests that were answered with success. -/
def confirmed (requests : List Request) (responses : List Response) : List IODataAction :=
  (requests.zip responses).filterMap fun
    | (.setState data, .setState ⟨true⟩) => some data.action
    | _ => none

/-- The request that is being answered where `handle_connection` waits. After an error there may be one that
never will be. -/
def Phase.Owes (pending : List Request) : Phase → Prop
  | .select | .send _ => pending = []
  | .command (.getAllData _) | .answer _ => pending = [.getHome]
  | .command (.action ioAction) => ∃ data : SetStateData, pending = [.setState data] ∧ data.action = ioAction
  | .closed => pending.length ≤ 1

/-- An action is put on the channel when as many successes as actions are in the log, and a success is sent
when there is one more action. -/
def Paired (before : List Effect) : Effect → Prop
  | .command (.action _) => (actions before).length = successes before
  | .send (.text (.setState _)) => (actions before).length = successes before + 1
  | _ => True

/-- A session: every request is answered once and in order, but for the one being answered; the actions are
those of the `SetState` requests answered with success, and each was put on the channel before that; the events
are the broadcasts up to those still in the receiver, and a lag ends it all. -/
structure Session (verify : String → String → Bool) (parse : String → Option Serde.Json) (past : List Label)
    (s : St) : Prop where
  answered : ∃ done pending, requests parse past = done ++ pending ∧ s.phase.Owes pending ∧
    Answered verify done (responses s.log) ∧ actions s.log = confirmed done (responses s.log)
  paired : ∀ (i : Nat) e, s.log[i]? = some e → Paired (s.log.take i) e
  events : ∃ sent, broadcasts past = sent ++ s.rxFeedbackEvt ∧
    events s.log = sent.map (EventData.new .ioChanged)
  lag : .feedback false ∈ past → s.phase = .closed

section
variable {verify : String → String → Bool} {parse : String → Option Serde.Json} {past : List Label} {s s' : St} {l : Label}

theorem Answered.length {requests : List Request} {responses : List Response}
    (h : Answered verify requests responses) : requests.length = responses.length := by
  induction h with
  | nil => rfl
  | snoc _ _ ih => simp [ih]

theorem confirmed_snoc {requests : List Request} {responses : List Response} (request : Request) (response : Response)
    (h : requests.length = responses.length) : confirmed (requests ++ [request]) (responses ++ [response]) =
      confirmed requests responses ++ confirmed [request] [response] := by
  unfold confirmed
  rw [List.zip_append h, List.filterMap_append]

/-! ## Requests and responses -/

/-- The invariant for requests, responses and actions. -/
structure Serves (verify : String → String → Bool) (requests : List Request) (s : St) : Prop where
  authenticated : s.authenticated = granted verify requests
  serving : s.phase.serving = true → s.authenticated = true
  answered : ∃ done pending, requests = done ++ pending ∧ s.phase.Owes pending ∧
    Answered verify done (responses s.log) ∧ actions s.log = confirmed done (responses s.log)
  balanced : (actions s.log).length = successes s.log
  paired : Explained Paired s.log

variable {rs : List Request}

/-- The wait changes, and what is owed with it. -/
theorem Serves.wait {phase : Phase} (h : Serves verify rs s) (hs : phase.serving = true → s.authenticated = true)
    (ho : ∀ pending, s.phase.Owes pending → phase.Owes pending) : Serves verify rs { s with phase := phase } := by
  obtain ⟨done, pending, hr, hp, ha, hc⟩ := h.answered
  exact ⟨h.authenticated, hs, ⟨done, pending, hr, ho pending hp, ha, hc⟩, h.balanced, h.paired⟩

/-- An effect that is no response and no action. -/
theorem Serves.quiet {e : Effect} {phase : Phase} (h : Serves verify rs s) (hr : responses [e] = [])
    (ha : actions [e] = []) (hs : e ≠ success) (hp : Paired s.log e)
    (hserving : phase.serving = true → s.authenticated = true)
    (ho : ∀ pending, s.phase.Owes pending → phase.Owes pending) :
    Serves verify rs { s with phase := phase, log := s.log ++ [e] } := by
  have hresponses : responses (s.log ++ [e]) = responses s.log := by
    rw [responses, List.filterMap_append]
    exact (congrArg (responses s.log ++ ·) hr).trans (List.append_nil _)
  have hactions : actions (s.log ++ [e]) = actions s.log := by
    rw [actions, List.filterMap_append]
    exact (congrArg (actions s.log ++ ·) ha).trans (List.append_nil _)
  have hsuccesses : successes (s.log ++ [e]) = successes s.log := by simp [successes, hs]
  obtain ⟨done, pending, hreq, hpend, hans, hconf⟩ := h.answered
  refine ⟨h.authenticated, hserving, ⟨done, pending, hreq, ho pending hpend, ?_, ?_⟩, ?_, h.paired.append hp⟩
  · rw [hresponses]
    exact hans
  · rw [hactions, hresponses]
    exact hconf
  · rw [hactions, hsuccesses]
    exact h.balanced

/-- A request that is answered at once, with no action: the client may be logged in by it, or refused. -/
theorem Serves.reply {request : Request} {response : Response} {auth close : Bool} (h : Serves verify rs s)
    (hsel : s.phase = .select) (ha : Answers verify (granted verify rs) request response)
    (hauth : auth = granted verify (rs ++ [request])) (hresp : ∃ ok, response = .login ⟨ok⟩) :
    Serves verify (rs ++ [request]) { s with
      authenticated := auth, phase := .send close, log := s.log ++ [.send (.text response)] } := by
  obtain ⟨done, pending, hreq, hpend, hans, hconf⟩ := h.answered
  rw [hsel] at hpend
  cases hpend
  rw [List.append_nil] at hreq
  subst hreq
  obtain ⟨ok, rfl⟩ := hresp
  have hresponses : responses (s.log ++ [.send (.text (.login ⟨ok⟩))]) = responses s.log ++ [.login ⟨ok⟩] := by
    simp [responses]
  have hactions : actions (s.log ++ [.send (.text (.login ⟨ok⟩))]) = actions s.log := by simp [actions]
  refine ⟨hauth, by simp [Phase.serving], ⟨rs ++ [request], [], by simp, rfl, ?_, ?_⟩, ?_, h.paired.append trivial⟩
  · rw [hresponses]
    exact hans.snoc ha
  · rw [hactions, hresponses, confirmed_snoc _ _ hans.length, ← hconf]
    cases request <;> simp [confirmed]
  · rw [hactions]
    simpa [successes, success] using h.balanced

/-- A request that is sent on to the engine first. -/
theorem Serves.owe {request : Request} {phase : Phase} {handlers : Nat} (h : Serves verify rs s)
    (hsel : s.phase = .select) (hauth : s.authenticated = true)
    (hgrant : granted verify (rs ++ [request]) = granted verify rs) (ho : phase.Owes [request]) :
    Serves verify (rs ++ [request]) { s with phase := phase, handlers := handlers } := by
  obtain ⟨done, pending, hreq, hpend, hans, hconf⟩ := h.answered
  rw [hsel] at hpend
  cases hpend
  rw [List.append_nil] at hreq
  subst hreq
  exact ⟨by rw [hgrant]; exact h.authenticated, fun _ => hauth, ⟨rs, [request], rfl, ho, hans, hconf⟩,
    h.balanced, h.paired⟩

theorem granted_snoc {request : Request} (rs : List Request) (hn : ∀ data, request ≠ .login data) :
    granted verify (rs ++ [request]) = granted verify rs := by
  rw [granted, List.foldl_append]
  cases request with
  | login data => exact absurd rfl (hn data)
  | pong | getHome | setState | event => rfl

/-- A client who is served was logged in before the request. -/
theorem Serves.loggedIn {done : List Request} {request : Request} (h : Serves verify rs s)
    (hs : s.phase.serving = true) (hreq : rs = done ++ [request]) (hn : ∀ data, request ≠ .login data) :
    granted verify done = true := by
  rw [← granted_snoc done hn, ← hreq, ← h.authenticated]
  exact h.serving hs

/-- The home arrives. -/
theorem Serves.home {handler : Nat} (h : Serves verify rs s) (hp : s.phase = .answer handler) (data : HomeData) :
    Serves verify rs (s.send (.text (.getHome data)) false) := by
  obtain ⟨done, pending, hreq, hpend, hans, hconf⟩ := h.answered
  rw [hp] at hpend
  cases hpend
  have hgrant := h.loggedIn (by rw [hp]; rfl) hreq (by simp)
  have hresponses : responses (s.log ++ [.send (.text (.getHome data))]) = responses s.log ++ [.getHome data] := by
    simp [responses]
  have hactions : actions (s.log ++ [.send (.text (.getHome data))]) = actions s.log := by simp [actions]
  refine ⟨h.authenticated, by simp [St.send, Phase.serving], ⟨done ++ [.getHome], [], by simp [hreq], rfl, ?_, ?_⟩,
    ?_, h.paired.append trivial⟩
  · simp only [St.send]
    rw [hresponses]
    exact hans.snoc (by simp [Answers, hgrant])
  · simp only [St.send]
    rw [hactions, hresponses, confirmed_snoc _ _ hans.length, ← hconf]
    simp [confirmed]
  · simp only [St.send]
    rw [hactions]
    simpa [successes, success] using h.balanced

/-- The action is in the channel, and its success is sent. -/
theorem Serves.command {ioAction : IODataAction} (h : Serves verify rs s)
    (hp : s.phase = .command (.action ioAction)) :
    Serves verify rs
      ({ s with log := s.log ++ [Effect.command (.action ioAction)] }.send (.text (.setState ⟨true⟩)) false) := by
  obtain ⟨done, pending, hreq, hpend, hans, hconf⟩ := h.answered
  rw [hp] at hpend
  obtain ⟨data, rfl, rfl⟩ := hpend
  have hgrant := h.loggedIn (by rw [hp]; rfl) hreq (by simp)
  have hresponses : responses (s.log ++ [Effect.command (.action data.action)] ++ [.send (.text (.setState ⟨true⟩))]) =
      responses s.log ++ [.setState ⟨true⟩] := by simp [responses]
  have hactions : actions (s.log ++ [Effect.command (.action data.action)] ++ [.send (.text (.setState ⟨true⟩))]) =
      actions s.log ++ [data.action] := by simp [actions]
  refine ⟨h.authenticated, by simp [St.send, Phase.serving],
    ⟨done ++ [.setState data], [], by simp [hreq], rfl, ?_, ?_⟩, ?_, ?_⟩
  · simp only [St.send]
    rw [hresponses]
    exact hans.snoc (by simp [Answers, hgrant])
  · simp only [St.send]
    rw [hactions, hresponses, confirmed_snoc _ _ hans.length, ← hconf]
    simp [confirmed]
  · simp only [St.send]
    rw [hactions]
    have := h.balanced
    simp [successes, success] at this ⊢
    exact this
  · have hpaired : Paired s.log (.command (.action data.action)) := h.balanced
    refine (h.paired.append hpaired).append ?_
    have hcount : successes (s.log ++ [Effect.command (.action data.action)]) = successes s.log := by
      simp [successes, success]
    have hone : actions (s.log ++ [Effect.command (.action data.action)]) = actions s.log ++ [data.action] := by
      simp [actions]
    rw [Paired, hone, hcount, List.length_append, h.balanced]
    rfl

theorem Phase.Owes.length {phase : Phase} {pending : List Request} (h : phase.Owes pending) : pending.length ≤ 1 := by
  cases phase with
  | select => rw [show pending = [] from h]; simp
  | send close => rw [show pending = [] from h]; simp
  | answer handler => rw [show pending = [.getHome] from h]; simp
  | closed => exact h
  | command cmd =>
    cases cmd with
    | getAllData handler => rw [show pending = [.getHome] from h]; simp
    | action ioAction =>
      obtain ⟨data, rfl, _⟩ := h
      simp

/-- An error: what was owed stays owed. -/
theorem Serves.close (h : Serves verify rs s) : Serves verify rs { s with phase := .closed } :=
  h.wait (by simp [Phase.serving]) fun _ ho => ho.length

theorem Serves.request {request : Request} (h : Serves verify rs s) (hsel : s.phase = .select)
    (hne : ∀ kind data, request ≠ .event kind data) :
    Serves verify (rs ++ ((some request).filter counted).toList) (handleRequest verify s request) := by
  have hrefuse : ∀ {r : Request}, (∀ data, r ≠ .login data) → Answers verify s.authenticated r (.login ⟨false⟩) →
      Serves verify (rs ++ [r]) s.refuse := by
    intro r hr ha
    rw [h.authenticated] at ha
    exact h.reply hsel ha (by rw [granted_snoc rs hr]; exact h.authenticated) ⟨false, rfl⟩
  cases request with
  | pong data =>
    refine (List.append_nil rs).symm ▸ ?_
    exact h.quiet (e := .send (.pong data)) rfl rfl (by simp [success]) trivial (by simp [Phase.serving])
      fun _ ho => by rwa [hsel] at ho
  | login data =>
    have hgrant : granted verify (rs ++ [.login data]) = verify data.cnUser data.cnPass := by simp [granted]
    have hans : Answers verify (granted verify rs) (.login data) (.login ⟨verify data.cnUser data.cnPass⟩) := rfl
    simp only [handleRequest]
    cases hv : verify data.cnUser data.cnPass with
    | true =>
      rw [hv] at hans hgrant
      exact h.reply hsel hans hgrant.symm ⟨true, rfl⟩
    | false =>
      rw [hv] at hans hgrant
      exact h.reply hsel hans hgrant.symm ⟨false, rfl⟩
  | getHome =>
    simp only [handleRequest]
    by_cases ha : s.authenticated = true
    · have ho : Phase.Owes [.getHome] (.command (.getAllData s.handlers)) := rfl
      rw [if_pos ha]
      exact h.owe hsel ha (granted_snoc rs (by simp)) ho
    · rw [if_neg ha]
      exact hrefuse (by simp) (by simp [Answers, ha])
  | setState data =>
    simp only [handleRequest]
    by_cases ha : s.authenticated = true
    · have ho : Phase.Owes [.setState data] (.command (.action data.action)) := ⟨data, rfl, rfl⟩
      rw [if_pos ha]
      exact h.owe hsel ha (granted_snoc rs (by simp)) ho
    · rw [if_neg ha]
      exact hrefuse (by simp) (by simp [Answers, ha])
  | event kind data => exact absurd rfl (hne kind data)

theorem requests_append (past : List Label) (l : Label) :
    requests parse (past ++ [l]) = requests parse past ++ (countedOf parse l).toList := by
  rw [requests, List.filterMap_append]
  cases h : countedOf parse l <;> simp [requests, h]

theorem Serves.step (h : Serves verify (requests parse past) s) (hs : step verify parse s l = some s') :
    Serves verify (requests parse (past ++ [l])) s' := by
  rw [requests_append]
  have hsame : ∀ {t : St}, Serves verify (requests parse past) t → countedOf parse l = none →
      Serves verify (requests parse past ++ (countedOf parse l).toList) t := by
    intro t ht hl
    rw [hl]
    simpa using ht
  cases Step.of_step hs with
  | broadcast ioData =>
    exact hsame ⟨h.authenticated, h.serving, h.answered, h.balanced, h.paired⟩ rfl
  | served msg request hp hr =>
    have hserved := h.request hp (requestOf_ne_event hr)
    simpa only [countedOf, hr] using hserved
  | ended msg hp hr => exact hsame h.close (by simp [countedOf, hr])
  | feedback data rest hp ha hq =>
    refine hsame ?_ rfl
    have hrest : Serves verify (requests parse past) { s with rxFeedbackEvt := rest } :=
      ⟨h.authenticated, h.serving, h.answered, h.balanced, h.paired⟩
    exact hrest.quiet (e := .send (.text (.event (EventData.new .ioChanged data)))) rfl rfl (by simp [success])
      trivial (by simp [Phase.serving]) fun _ ho => by rwa [hp] at ho
  | sent ok close hp =>
    refine hsame (h.wait ?_ ?_) rfl
    · split <;> simp [Phase.serving]
    · intro pending ho
      rw [hp] at ho
      cases ho
      split
      · rfl
      · exact Nat.zero_le _
  | requested handler hp =>
    refine hsame ?_ rfl
    exact h.quiet (e := .command (.getAllData handler)) rfl rfl (by simp [success]) trivial
      (fun _ => h.serving (by rw [hp]; rfl)) fun _ ho => by rwa [hp] at ho
  | commanded ioAction hp => exact hsame (h.command hp) rfl
  | answer handler data hp => exact hsame (h.home hp data) rfl
  | failed l hl =>
    refine hsame h.close ?_
    cases l with
    | next msg => exact absurd rfl (hl msg)
    | broadcast | feedback | sent | commanded | answer => rfl

/-! ## Events -/

/-- The events sent and the values still in the receiver are the broadcasts, and nothing follows a lag. -/
structure Forwards (past : List Label) (s : St) : Prop where
  events : ∃ sent, broadcasts past = sent ++ s.rxFeedbackEvt ∧ events s.log = sent.map (EventData.new .ioChanged)
  lag : .feedback false ∈ past → s.phase = .closed

theorem handleRequest_events {request : Request} (hne : ∀ kind data, request ≠ .event kind data) :
    events (handleRequest verify s request).log = events s.log := by
  cases request with
  | pong data => simp [handleRequest, St.send, events]
  | login data => simp only [handleRequest]; split <;> simp [St.send, St.refuse, events]
  | getHome => simp only [handleRequest]; split <;> simp [St.send, St.refuse, events]
  | setState data => simp only [handleRequest]; split <;> simp [St.send, St.refuse, events]
  | event kind data => exact absurd rfl (hne kind data)

/-- Once closed, always closed; and a lag closes. -/
theorem step_closed (hs : step verify parse s l = some s') :
    (s.phase = .closed → s'.phase = .closed) ∧ (l = .feedback false → s'.phase = .closed) := by
  cases Step.of_step hs with
  | broadcast ioData => exact ⟨id, nofun⟩
  | served msg request hp hr | ended msg hp hr | sent ok close hp | requested handler hp | commanded ioAction hp
  | answer handler data hp | feedback data rest hp ha hq =>
    refine ⟨?_, by simp⟩
    rw [hp]
    exact nofun
  | failed l hl => exact ⟨fun _ => rfl, fun _ => rfl⟩

theorem Forwards.step (h : Forwards past s) (hs : step verify parse s l = some s') : Forwards (past ++ [l]) s' := by
  obtain ⟨hclosed, hlag⟩ := step_closed hs
  refine ⟨?_, ?_⟩
  · obtain ⟨sent, hb, he⟩ := h.events
    have hbroadcasts : broadcasts (past ++ [l]) = broadcasts past ++ broadcasts [l] := List.filterMap_append
    rw [hbroadcasts, hb]
    by_cases hl : ∃ d, l = .broadcast d
    · obtain ⟨d, rfl⟩ := hl
      cases hs
      exact ⟨sent, by simp [broadcasts], he⟩
    · have hnone : broadcasts [l] = [] := by
        cases l with
        | broadcast d => exact absurd ⟨d, rfl⟩ hl
        | next | feedback | sent | commanded | answer => rfl
      rw [hnone, List.append_nil]
      cases Step.of_step hs with
      | broadcast d => exact absurd ⟨d, rfl⟩ hl
      | served msg request hp hr =>
        have hne := requestOf_ne_event hr
        rw [handleRequest_rxFeedbackEvt, handleRequest_events hne]
        exact ⟨sent, rfl, he⟩
      | feedback data rest hp ha hq =>
        refine ⟨sent ++ [data], by simp [hq, St.send], ?_⟩
        simpa [Websocket.events, St.send] using he
      | commanded ioAction hp => exact ⟨sent, rfl, by simpa [Websocket.events, St.send] using he⟩
      | requested handler hp => exact ⟨sent, rfl, by simpa [Websocket.events] using he⟩
      | answer handler data hp => exact ⟨sent, rfl, by simpa [Websocket.events, St.send] using he⟩
      | ended | sent | failed => exact ⟨sent, rfl, he⟩
  · intro hmem
    rcases List.mem_append.1 hmem with hmem | hmem
    · exact hclosed (h.lag hmem)
    · exact hlag (List.mem_singleton.1 hmem).symm

/-- **A websocket session loses and duplicates nothing.** -/
theorem session_exact {ls : List Label} (hr : run (step verify parse) init ls = some s) :
    Session verify parse ls s := by
  have hserves : Serves verify (requests parse ls) s := by
    refine run_traced (step verify parse) (I := fun past t => Serves verify (requests parse past) t)
      (fun _ _ _ _ hi hs => hi.step hs) ?_ hr
    exact ⟨rfl, by simp [init, Phase.serving], ⟨[], [], rfl, rfl, .nil, rfl⟩, rfl, Explained.nil⟩
  have hforwards : Forwards ls s := by
    refine run_traced (step verify parse) (fun _ _ _ _ hi hs => hi.step hs) ⟨⟨[], rfl, rfl⟩, ?_⟩ hr
    intro h
    simp at h
  exact ⟨hserves.answered, fun _ _ hi => hserves.paired.at hi, hforwards.events, hforwards.lag⟩

end

/-- The light of the porch is to go on. -/
def porchText : String :=
  "\x7b\"msg\":\"set_state\",\"data\":\x7b\"id\":\"porch\",\"value\":\"true\"\x7d\x7d"

def homeText : String := "\x7b\"msg\":\"get_home\"\x7d"

/-- `serde_json` on the three texts. -/
def visitParse (text : String) : Option Serde.Json :=
  if text = aliceText then aliceParse text
  else if text = porchText then
    some (.obj [("msg", .str "set_state"), ("data", .obj [("id", .str "porch"), ("value", .str "true")])])
  else if text = homeText then some (.obj [("msg", .str "get_home")])
  else none

/-- Alice logs in, hears that the lamp went on, switches on that of the porch, and asks for the home. -/
def aliceVisits : List Label :=
  aliceEnters ++ [.feedback true, .sent true, .next (some (.text porchText)), .commanded true, .sent true,
    .next (some (.text homeText)), .commanded true, .answer (some ⟨[], (), ()⟩)]

/-- What has been done for her, the home being empty. -/
def visited : St where
  authenticated := true
  phase := .send false
  rxFeedbackEvt := []
  handlers := 1
  log := [.send (.text (.login ⟨true⟩)), .send lampOn, .command (.action ⟨"porch", .setValue (.bool true)⟩),
    .send (.text (.setState ⟨true⟩)), .command (.getAllData 0), .send (.text (.getHome ⟨[], (), ()⟩))]

/-- Three requests, three responses, one action and one event. -/
theorem session_exact_alice :
    run (step (verifyLogin (some "alice") (some "secret")) visitParse) init aliceVisits = some visited ∧
    Session (verifyLogin (some "alice") (some "secret")) visitParse aliceVisits visited ∧
    requests visitParse aliceVisits =
      [.login ⟨"alice", "secret"⟩, .setState ⟨"porch", .setValue (.bool true)⟩, .getHome] := by
  have hrun : run (step (verifyLogin (some "alice") (some "secret")) visitParse) init aliceVisits = some visited := rfl
  exact ⟨hrun, session_exact hrun, by decide⟩

end Calaos.Websocket
