import Calaos.Delivery
import Calaos.HomeStore
import Calaos.WebsocketSession
/-!
# The sessions of the server

Every session runs as `handle_connection` does alone, on what its client sent and on the values broadcast since it was
accepted, whatever the other sessions do (`SessionRan`). So its client is sent these values and no others, each once;
its commands come after a login; and the homes it is sent are answers to its own requests (`sessions_served`).

A client that falls behind by more than the slots of the broadcast channel is sent no more of them (`falls_behind`).
That includes one that waits too long before it logs in, since nothing is taken from its receiver until then.
-/
namespace Calaos

/-! ## The connection -/

namespace Websocket

open Runs

/-- The commands that a connection has put into the channel. -/
def sentCommands (log : List Effect) : List IODataCmd :=
  log.filterMap fun
    | .command cmd => some cmd
    | .send _ => none

/-- All but the broadcasts. -/
def Label.heeded : Label → Bool
  | .broadcast _ => false
  | _ => true

/-- A home that was sent. -/
def home (data : HomeData) : Effect := .send (.text (.getHome data))

section
variable {verify : String → String → Bool} {parse : String → Option Serde.Json} {c c' : St} {l : Label}

/-- What a client logs in with does not depend on the broadcasts. -/
theorem logins_heeded (ls : List Label) : logins parse (ls.filter Label.heeded) = logins parse ls := by
  induction ls with
  | nil => rfl
  | cons l ls ih =>
    have hcons : ∀ ls', logins parse (l :: ls') = (loginOf parse l).toList ++ logins parse ls' := by
      intro ls'
      unfold logins
      cases h : loginOf parse l <;> simp [h]
    cases l with
    | broadcast ioData =>
      rw [List.filter_cons_of_neg (by simp [Label.heeded]), ih, hcons]
      rfl
    | next | feedback | sent | commanded | answer =>
      rw [List.filter_cons_of_pos (by rfl), hcons, ih, ← hcons]

theorem loggedIn_heeded {ls : List Label} (h : LoggedIn verify parse ls) :
    LoggedIn verify parse (ls.filter Label.heeded) := by
  unfold LoggedIn at h ⊢
  rwa [logins_heeded]

/-- Nothing but a command that is sent is a command. -/
theorem step_commands (hs : step verify parse c l = some c') (hl : l ≠ .commanded true) :
    sentCommands c'.log = sentCommands c.log := by
  cases Step.of_step hs with
  | served msg request hp hr =>
    obtain ⟨new, hlog, hnew⟩ := handleRequest_log verify (requestOf_ne_event hr) c
    have hnone : sentCommands new = [] := by
      rw [sentCommands, List.filterMap_eq_nil_iff]
      intro e he
      cases e with
      | send reply => rfl
      | command cmd => exact absurd (hnew _ he) (by simp [Effect.privileged])
    rw [hlog, sentCommands, List.filterMap_append]
    exact (congrArg _ hnone).trans (List.append_nil _)
  | feedback | answer => simp [sentCommands, St.send]
  | requested | commanded => exact absurd rfl hl
  | broadcast | ended | sent | failed => rfl

theorem step_commanded {cmd : IODataCmd} (hp : c.phase = .command cmd)
    (hs : step verify parse c (.commanded true) = some c') : sentCommands c'.log = sentCommands c.log ++ [cmd] := by
  simp only [step, hp, if_true] at hs
  cases cmd with
  | getAllData handler =>
    cases hs
    exact List.filterMap_append
  | action ioAction =>
    cases hs
    simp [sentCommands, St.send]

/-- A home is sent when it comes as an answer. -/
theorem step_home {data : HomeData} (hs : step verify parse c l = some c') (hm : home data ∈ c'.log) :
    home data ∈ c.log ∨ l = .answer (some data) := by
  cases Step.of_step hs with
  | served msg request hp hr =>
    obtain ⟨new, hlog, hnew⟩ := handleRequest_log verify (requestOf_ne_event hr) c
    rw [hlog] at hm
    rcases List.mem_append.1 hm with hm | hm
    · exact .inl hm
    · exact absurd (hnew _ hm) (by simp [Effect.privileged, home])
  | answer handler data' hp =>
    rcases List.mem_append.1 hm with hm | hm
    · exact .inl hm
    · rw [home, List.mem_singleton, Effect.send.injEq, Reply.text.injEq, Response.getHome.injEq] at hm
      rw [hm]
      exact .inr rfl
  | feedback | requested | commanded =>
    left
    simpa [home, St.send] using hm
  | broadcast | ended | sent | failed => exact .inl hm

/-- It takes nothing from its receiver but what it sends on at once. -/
theorem step_behind (hs : step verify parse c l = some c') (hl : l ≠ .feedback true) :
    c.rxFeedbackEvt.length ≤ c'.rxFeedbackEvt.length ∧ events c'.log = events c.log := by
  cases Step.of_step hs with
  | broadcast ioData => simp
  | served msg request hp hr =>
    rw [handleRequest_rxFeedbackEvt, handleRequest_events (requestOf_ne_event hr)]
    exact ⟨Nat.le_refl _, rfl⟩
  | feedback data rest hp ha hq => exact absurd rfl hl
  | requested | commanded | answer => simp [events, St.send]
  | ended | sent | failed => exact ⟨Nat.le_refl _, rfl⟩

/-- What was broadcast has been sent, or waits in the receiver. -/
theorem forwards_run {ls : List Label} (h : run (step verify parse) init ls = some c) : Forwards ls c :=
  run_traced (step verify parse) (I := fun past t => Forwards past t) (fun _ _ _ _ hi hs => hi.step hs)
    ⟨⟨[], rfl, rfl⟩, by simp⟩ h

/-- Whoever is served has logged in before. -/
theorem run_privileged {ls : List Label} (h : run (step verify parse) init ls = some c) {e : Effect} (he : e ∈ c.log)
    (hpr : e.privileged = true) : ∃ before, before <+: ls ∧ LoggedIn verify parse before := by
  have hinit : Gated verify parse [] init := ⟨nofun, nofun⟩
  have key := run_traced (step verify parse) (I := fun past t => Gated verify parse past t ∧
    ∀ e ∈ t.log, e.privileged = true → ∃ before, before <+: past ∧ LoggedIn verify parse before) ?_
    ⟨hinit, by simp [init]⟩ h
  · exact key.2 e he hpr
  · rintro past t l t' ⟨hg, hi⟩ hs
    obtain ⟨hg', new, hlog, hnew⟩ := hg.step hs
    refine ⟨hg', fun e he hpr => ?_⟩
    rw [hlog] at he
    rcases List.mem_append.1 he with he | he
    · obtain ⟨before, hb, hlogin⟩ := hi e he hpr
      exact ⟨before, hb.trans (List.prefix_append _ _), hlogin⟩
    · exact ⟨past, List.prefix_append _ _, hnew e he hpr⟩

end

end Websocket

/-! ## The answers of the rules engine -/

namespace Engine

open Runs HomeStore

variable {io : IoConfig} {rulesConfig : Rules.RulesConfig} {s t : St} {l : Label} {past : List Label}

/-- An answer is the home that the commands before its request and the feedback by then make. -/
def HomeOf (io : IoConfig) (past : List Label) (handler : Nat) (data : HomeData) : Prop :=
  ∃ before after, past = before ++ .recv (some (.getAllData handler)) :: after ∧
    data = (storeOf (commands before) (feedbacks before)).home io

theorem refines_run (h : run (step io) (init io rulesConfig) past = some s) :
    Refines io (storeOf (commands past) (feedbacks past)) s := by
  refine run_traced (step io) (I := fun past t => Refines io (storeOf (commands past) (feedbacks past)) t) ?_
    (refines_init io rulesConfig) h
  intro past t l t' hi hs
  have hfed : feedbacks (past ++ [l]) = feedbacks past ++ feedbacks [l] := List.filterMap_append
  have hstore : storeOf (commands (past ++ [l])) (feedbacks (past ++ [l])) =
      (storeOf (commands past) (feedbacks past)).step l := by
    rw [commands_append, hfed]
    cases l with
    | recv command =>
      cases command with
      | none => simp [commands, feedbacks, Store.step]
      | some command => rw [← storeOf_command]; simp [commands, feedbacks]
    | feedback d => rw [← storeOf_feedback]; simp [commands, feedbacks]
    | sent | sendFails | feedbackFails => simp [commands, feedbacks, Store.step]
  rw [hstore]
  exact hi.step hs

theorem answers_run (h : run (step io) (init io rulesConfig) past = some s) {handler : Nat} {data : HomeData}
    (ha : (handler, data) ∈ s.answers) : HomeOf io past handler data := by
  have key := run_traced (step io) (I := fun past t => run (step io) (init io rulesConfig) past = some t ∧
    ∀ handler data, (handler, data) ∈ t.answers → HomeOf io past handler data) ?_ ⟨rfl, by simp [init]⟩ h
  · exact key.2 handler data ha
  · rintro past t l t' ⟨hr, hi⟩ hs
    refine ⟨(run_snoc _).2 ⟨t, hr, hs⟩, fun handler data hm => ?_⟩
    rw [(step_maps hs).2.2] at hm
    rcases List.mem_append.1 hm with hm | hm
    · obtain ⟨before, after, rfl, hdata⟩ := hi handler data hm
      exact ⟨before, after ++ [l], by simp, hdata⟩
    · cases l with
      | recv command =>
        rcases command with _ | ⟨ioAction⟩ | handler'
        · cases hm
        · cases hm
        · simp only [nextAnswers, answerTo, List.mem_singleton, Prod.mk.injEq] at hm
          obtain ⟨rfl, rfl⟩ := hm
          exact ⟨past, [], rfl, (refines_run hr).home⟩
      | sent | sendFails | feedback | feedbackFails => cases hm

end Engine

/-! ## The sessions -/

namespace Server

open Runs Queue HomeStore
open OutputControllers (channelCapacity)

/-- What a session has done of itself: all its steps, the broadcasts apart. -/
def own {Addr : Type} (i : Nat) (past : List (Label Addr)) : List Websocket.Label :=
  past.filterMap fun
    | .session j l => if j = i then some l else none
    | _ => none

theorem own_snoc {Addr : Type} (i : Nat) (past : List (Label Addr)) (l : Label Addr) :
    own i (past ++ [l]) = own i past ++ own i [l] := List.filterMap_append

section
variable {Ip : Type} [DecidableEq Ip] (site : Site Ip) {Addr : Type}

/-- The values broadcast since the session was accepted. -/
def Since (i : Nat) (past : List (Label Addr)) (s : St) (ioDatas : List IOData) : Prop :=
  ∃ before after s₀, past = before ++ .accept :: after ∧ run (Server.step site) (init site) before = some s₀ ∧
    s₀.sessions.length = i ∧ ∃ entries, s.feedback.log = s₀.feedback.log ++ entries ∧ ioDatas = entries.map (·.2)

/-- A session has run alone, on these values and on what its client sent. -/
structure SessionRan (past : List (Label Addr)) (s : St) (i : Nat) (c : Websocket.St) (ls : List Websocket.Label) :
    Prop where
  reached : run (Websocket.step site.verify site.parseJson) Websocket.init ls = some c
  own : ls.filter Websocket.Label.heeded = own i past
  since : Since site i past s (Websocket.broadcasts ls)
  commands : tagged (.session i) s.inputEvt.log = (Websocket.sentCommands c.log).map (addressed i)
  homes : ∀ data, Websocket.home data ∈ c.log → ∃ handler, (Nat.pair i handler, data) ∈ s.engine.answers

/-- What a session comes to, for its client and for the rest of the server. -/
structure SessionServed (past : List (Label Addr)) (s : St) (i : Nat) (c : Websocket.St) : Prop where
  /-- Its client was sent the first of the values broadcast since the session was accepted, and the others wait. -/
  events : ∃ sent, Since site i past s (sent ++ c.rxFeedbackEvt) ∧
    Websocket.events c.log = sent.map (EventData.new .ioChanged)
  commands : tagged (.session i) s.inputEvt.log = (Websocket.sentCommands c.log).map (addressed i)
  login : ∀ cmd, (.session i, cmd) ∈ s.inputEvt.log →
    ∃ before, before <+: Server.own i past ∧ Websocket.LoggedIn site.verify site.parseJson before
  /-- A home it was sent is read when its own request is served, from what came before that in the channel and
  from a first part of what was broadcast. -/
  homes : ∀ data, Websocket.home data ∈ c.log → ∃ handler before later fed,
    s.inputEvt.log.map (·.2) = before ++ .getAllData (Nat.pair i handler) :: later ∧
    fed <+: s.feedback.log.map (·.2) ∧ data = (storeOf before fed).home site.io

/-- All sessions have, and those to come have done nothing. -/
structure SessionsRan (past : List (Label Addr)) (s : St) : Prop where
  reached : run (Server.step site) (init site) past = some s
  ran : ∀ i c, s.sessions[i]? = some c → ∃ ls, SessionRan site past s i c ls
  none : ∀ i, s.sessions.length ≤ i → own i past = [] ∧ tagged (.session i) s.inputEvt.log = []

end

section
variable {Ip : Type} [DecidableEq Ip] {site : Site Ip} {Addr : Type} {s s' : St} {l : Label Addr}
  {past : List (Label Addr)} {i : Nat} {c c' : Websocket.St} {ls : List Websocket.Label}

theorem Since.snoc {ioDatas : List IOData} (h : Since site i past s ioDatas) (hf : s'.feedback.log = s.feedback.log) :
    Since site i (past ++ [l]) s' ioDatas := by
  obtain ⟨before, after, s₀, rfl, hr, hi, entries, hlog, hd⟩ := h
  exact ⟨before, after ++ [l], s₀, by simp, hr, hi, entries, hf.trans hlog, hd⟩

theorem Since.broadcast {ioDatas : List IOData} (h : Since site i past s ioDatas) (origin : Origin) (ioData : IOData) :
    Since site i past (s.broadcast origin ioData) (ioDatas ++ [ioData]) := by
  obtain ⟨before, after, s₀, rfl, hr, hi, entries, hlog, rfl⟩ := h
  exact ⟨before, after, s₀, rfl, hr, hi, entries ++ [(origin, ioData)],
    by simp [St.broadcast, hlog], by simp⟩

/-- A step of somebody else. -/
theorem SessionRan.frame (h : SessionRan site past s i c ls) (ho : Server.own i [l] = [])
    (hf : s'.feedback.log = s.feedback.log)
    (hi : tagged (.session i) s'.inputEvt.log = tagged (.session i) s.inputEvt.log)
    (ha : ∀ a ∈ s.engine.answers, a ∈ s'.engine.answers) : SessionRan site (past ++ [l]) s' i c ls where
  reached := h.reached
  own := by rw [own_snoc, ho, List.append_nil, h.own]
  since := h.since.snoc hf
  commands := hi.trans h.commands
  homes data hm := by
    obtain ⟨handler, hin⟩ := h.homes data hm
    exact ⟨handler, ha _ hin⟩

/-- A broadcast is for every session. -/
theorem SessionRan.broadcast (h : SessionRan site past s i c ls) (origin : Origin) (ioData : IOData) :
    SessionRan site past (s.broadcast origin ioData) i (hearing ioData c) (ls ++ [.broadcast ioData]) where
  reached := (run_snoc _).2 ⟨c, h.reached, rfl⟩
  own := by rw [List.filter_append, h.own]; simp [Websocket.Label.heeded]
  since := by
    have hb : Websocket.broadcasts (ls ++ [.broadcast ioData]) = Websocket.broadcasts ls ++ [ioData] := by
      simp [Websocket.broadcasts]
    rw [hb]
    exact h.since.broadcast origin ioData
  commands := h.commands
  homes := h.homes

/-- A step of its own, with which nothing is broadcast. -/
theorem SessionRan.snoc {lw : Websocket.Label} (h : SessionRan site past s i c ls)
    (hs : Websocket.step site.verify site.parseJson c lw = some c') (hl : lw.heeded = true)
    (hf : s'.feedback.log = s.feedback.log)
    (hi : tagged (.session i) s'.inputEvt.log = (Websocket.sentCommands c'.log).map (addressed i))
    (ha : ∀ data, Websocket.home data ∈ c'.log → ∃ handler, (Nat.pair i handler, data) ∈ s'.engine.answers) :
    SessionRan site (past ++ [.session i lw]) s' i c' (ls ++ [lw]) where
  reached := (run_snoc _).2 ⟨c, h.reached, hs⟩
  own := by
    rw [own_snoc, List.filter_append, h.own]
    simp [hl, Server.own]
  since := by
    have hb : Websocket.broadcasts (ls ++ [lw]) = Websocket.broadcasts ls := by
      cases lw <;> simp [Websocket.broadcasts, Websocket.Label.heeded] at hl ⊢
    rw [hb]
    exact h.since.snoc hf
  commands := hi
  homes := ha

/-- What a broadcast does to all of them. -/
theorem SessionsRan.ran_broadcast (h : ∀ i c, s.sessions[i]? = some c → ∃ ls, SessionRan site past s i c ls)
    (origin : Origin) (ioData : IOData) :
    ∀ i c, (s.broadcast origin ioData).sessions[i]? = some c →
      ∃ ls, SessionRan site past (s.broadcast origin ioData) i c ls := by
  intro i c hi
  simp only [St.broadcast, List.getElem?_map, Option.map_eq_some_iff] at hi
  obtain ⟨c₀, hi₀, rfl⟩ := hi
  obtain ⟨ls, hran⟩ := h i c₀ hi₀
  exact ⟨_, hran.broadcast origin ioData⟩

/-- No answer is taken back. -/
theorem answers_grow (hs : Step site s l s') : ∀ a ∈ s.engine.answers, a ∈ s'.engine.answers := by
  have hengine : ∀ {le : Engine.Label} {e : Engine.St}, Engine.step site.io s.engine le = some e →
      ∀ a ∈ s.engine.answers, a ∈ e.answers := by
    intro le e he a ha
    rw [(Engine.step_maps he).2.2]
    exact List.mem_append_left _ ha
  cases hs with
  | datagram datagram request hp hr lastChange outs hh =>
    exact broadcasts_keep (P := fun t => ∀ a ∈ s.engine.answers, a ∈ t.engine.answers) (fun _ _ ht => ht)
      (MainServer.broadcasts outs) _ fun _ ha => ha
  | recv command inputEvt engine ht he => exact hengine he
  | send command actions rules engine hp hroom he => exact hengine he
  | hear ioData feedback engine ht hlag he => exact hengine he
  | lagged engine hlag he => exact hengine he
  | garbled | submit | accept | alone | commanded | mqtt | dispatch | dispatched | start | unreachable | turn | tell
  | returns | quit => exact fun _ ha => ha

/-- A step that no session has to do with. -/
theorem SessionsRan.frame (h : SessionsRan site past s) (hs : Server.step site s l = some s')
    (hc : s'.sessions = s.sessions) (ho : ∀ i, own i [l] = []) (hf : s'.feedback.log = s.feedback.log)
    (hi : ∀ i, tagged (.session i) s'.inputEvt.log = tagged (.session i) s.inputEvt.log) :
    SessionsRan site (past ++ [l]) s' where
  reached := (run_snoc _).2 ⟨s, h.reached, hs⟩
  ran i c hget := by
    rw [hc] at hget
    obtain ⟨ls, hran⟩ := h.ran i c hget
    exact ⟨ls, hran.frame (ho i) hf (hi i) (answers_grow (Step.of_step hs).2)⟩
  none i hle := by
    rw [hc] at hle
    rw [own_snoc, ho i, List.append_nil, hi i]
    exact h.none i hle

/-- A step with which one session goes on. -/
theorem SessionsRan.moved {lw : Websocket.Label} (h : SessionsRan site past s)
    (hs : Server.step site s (.session i lw : Label Addr) = some s') (hget : s.sessions[i]? = some c)
    (hc : s'.sessions = s.sessions.set i c') (hlw : lw.heeded = true)
    (hstep : Websocket.step site.verify site.parseJson c lw = some c') (hf : s'.feedback.log = s.feedback.log)
    (hother : ∀ j, j ≠ i → tagged (.session j) s'.inputEvt.log = tagged (.session j) s.inputEvt.log)
    (hown : tagged (.session i) s.inputEvt.log = (Websocket.sentCommands c.log).map (addressed i) →
      tagged (.session i) s'.inputEvt.log = (Websocket.sentCommands c'.log).map (addressed i))
    (hhomes : ∀ data, lw = .answer (some data) → ∃ handler, (Nat.pair i handler, data) ∈ s.engine.answers) :
    SessionsRan site (past ++ [.session i lw]) s' := by
  have hgrow := answers_grow (Step.of_step hs).2
  have hlt : i < s.sessions.length := (List.getElem?_eq_some_iff.1 hget).1
  refine ⟨(run_snoc _).2 ⟨s, h.reached, hs⟩, ?_, ?_⟩
  · intro j d hj
    rw [hc] at hj
    rcases set_cases hget hj with ⟨rfl, rfl⟩ | ⟨hji, hj⟩
    · obtain ⟨ls, hran⟩ := h.ran j c hget
      refine ⟨_, hran.snoc hstep hlw hf (hown hran.commands) fun data hm => ?_⟩
      rcases Websocket.step_home hstep hm with hbefore | hl
      · obtain ⟨handler, hin⟩ := hran.homes data hbefore
        exact ⟨handler, hgrow _ hin⟩
      · obtain ⟨handler, hin⟩ := hhomes data hl
        exact ⟨handler, hgrow _ hin⟩
    · obtain ⟨ls, hran⟩ := h.ran j d hj
      exact ⟨ls, hran.frame (by simp [own, Ne.symm hji]) hf (hother j hji) hgrow⟩
  · intro j hle
    rw [hc, List.length_set] at hle
    have hji : j ≠ i := by omega
    rw [own_snoc, hother j hji, (h.none j hle).1, (h.none j hle).2]
    simp [own, Ne.symm hji]

theorem SessionsRan.step (h : SessionsRan site past s) (hs : Server.step site s l = some s') :
    SessionsRan site (past ++ [l]) s' := by
  obtain ⟨_, hstep⟩ := Step.of_step hs
  have hreached := (run_snoc (Server.step site)).2 ⟨s, h.reached, hs⟩
  cases hstep with
  | accept =>
    refine ⟨hreached, ?_, ?_⟩
    · intro i c hi
      rw [List.getElem?_append] at hi
      split at hi
      · obtain ⟨ls, hran⟩ := h.ran i c hi
        exact ⟨ls, hran.frame rfl rfl rfl fun _ ha => ha⟩
      · rename_i hge
        rw [List.getElem?_singleton] at hi
        split at hi
        · rename_i hzero
          have hlen : i = s.sessions.length := by omega
          cases hi
          obtain ⟨hown, htagged⟩ := h.none i (Nat.le_of_eq hlen.symm)
          refine ⟨[], rfl, ?_, ⟨past, [], s, rfl, h.reached, hlen.symm, [], by simp, rfl⟩, htagged,
            by simp [Websocket.init]⟩
          rw [own_snoc, hown]
          rfl
        · cases hi
    · intro i hle
      rw [List.length_append] at hle
      rw [own_snoc, show own i [(.accept : Label Addr)] = [] from rfl, List.append_nil]
      exact h.none i (by omega)
  | datagram datagram request hp hr lastChange outs hh =>
    have hkeep := broadcasts_keep (P := fun t =>
        (∀ i c, t.sessions[i]? = some c → ∃ ls, SessionRan site (past ++ [.datagram datagram]) t i c ls) ∧
        t.sessions.length = s.sessions.length ∧ t.inputEvt = s.inputEvt)
      (fun t ioData ht => ⟨SessionsRan.ran_broadcast ht.1 .input ioData, by simpa [St.broadcast] using ht.2.1, ht.2.2⟩)
      (MainServer.broadcasts outs) { s with lastChange := lastChange, pending := MainServer.commands outs }
      ⟨fun i c hi => by
        obtain ⟨ls, hran⟩ := h.ran i c hi
        exact ⟨ls, hran.frame rfl rfl rfl fun _ ha => ha⟩, rfl, rfl⟩
    refine ⟨hreached, hkeep.1, fun i hle => ?_⟩
    rw [hkeep.2.1] at hle
    rw [own_snoc, hkeep.2.2, show own i [(.datagram datagram : Label Addr)] = [] from rfl, List.append_nil]
    exact h.none i hle
  | tell n ioData rest hout hn ho =>
    refine ⟨hreached, SessionsRan.ran_broadcast (s := s.setController n
      { s.controllers n with told := (s.controllers n).told + 1 }) (fun i c hi => ?_) _ _, fun i hle => ?_⟩
    · obtain ⟨ls, hran⟩ := h.ran i c hi
      exact ⟨ls, hran.frame rfl rfl rfl fun _ ha => ha⟩
    · rw [own_snoc, show own i [(.tell n : Label Addr)] = [] from rfl, List.append_nil]
      exact h.none i (by simpa [St.broadcast, St.setController] using hle)
  | alone i c c' lw hget hal hcs =>
    refine h.moved hs hget rfl ?_ hcs rfl (fun _ _ => rfl) (fun hc => ?_) ?_
    · cases lw with
      | broadcast ioData => exact hal.elim
      | next | feedback | sent | commanded | answer => rfl
    · rw [Websocket.step_commands hcs (by rintro rfl; exact hal.elim)]
      exact hc
    · rintro data rfl
      obtain ⟨handler, answer, _, hdata, hin⟩ := hal
      cases hdata
      exact ⟨handler, hin⟩
  | commanded i c c' cmd hget hp hroom hcs =>
    refine h.moved hs hget rfl rfl hcs rfl (fun j hji => ?_) (fun hc => ?_)
      (fun data he => by cases he)
    · simp [tagged_snoc, Ne.symm hji]
    · simp [tagged_snoc, hc, Websocket.step_commanded hp hcs]
  | recv command inputEvt engine ht he => exact h.frame hs rfl (fun _ => rfl) rfl fun i => congrArg _ ht.log
  | hear ioData feedback engine ht hlag he => exact h.frame hs rfl (fun _ => rfl) ht.log fun _ => rfl
  | submit => exact h.frame hs rfl (fun _ => rfl) rfl fun i => by simp [tagged_snoc]
  | garbled | mqtt | send | lagged | dispatch | dispatched | start | unreachable | turn | returns | quit =>
    exact h.frame hs rfl (fun _ => rfl) rfl fun _ => rfl

theorem run_sessions (h : run (Server.step site) (init site) past = some s) : SessionsRan site past s :=
  run_traced (Server.step site) (fun _ _ _ _ => SessionsRan.step)
    ⟨rfl, fun i c hi => by simp [init] at hi, fun i _ => ⟨rfl, rfl⟩⟩ h

/-! ## What comes of it -/

/-- Answers are for those who asked. -/
theorem Traced.home (ht : Traced site s) {handler : Nat} {data : HomeData} (ha : (handler, data) ∈ s.engine.answers) :
    ∃ before later fed, s.inputEvt.log.map (·.2) = before ++ .getAllData handler :: later ∧
      fed <+: s.feedback.log.map (·.2) ∧ data = (storeOf before fed).home site.io := by
  obtain ⟨le, hran⟩ := ht.engine
  obtain ⟨before, after, rfl, hdata⟩ := Engine.answers_run hran.reached ha
  have hcommands := hran.commands
  have hfeedbacks := hran.feedbacks
  rw [show Engine.commands (before ++ .recv (some (.getAllData handler)) :: after) =
    Engine.commands before ++ .getAllData handler :: Engine.commands after by simp [Engine.commands]] at hcommands
  rw [show Engine.feedbacks (before ++ .recv (some (.getAllData handler)) :: after) =
    Engine.feedbacks before ++ Engine.feedbacks after by simp [Engine.feedbacks]] at hfeedbacks
  refine ⟨Engine.commands before, Engine.commands after ++ s.inputEvt.waiting.map (·.2), Engine.feedbacks before,
    ?_, ?_, hdata⟩
  · rw [← taken_append_waiting s.inputEvt, List.map_append, ← hcommands, List.append_assoc, List.cons_append]
  · rw [← taken_append_waiting s.feedback, List.map_append, ← hfeedbacks, List.append_assoc]
    exact List.prefix_append _ _

/-- Whoever has sent a command has logged in before. -/
theorem SessionsRan.login (h : SessionsRan site past s) {cmd : IODataCmd} (hm : (.session i, cmd) ∈ s.inputEvt.log) :
    ∃ before, before <+: own i past ∧ Websocket.LoggedIn site.verify site.parseJson before := by
  have htagged := mem_tagged.2 hm
  rcases Nat.lt_or_ge i s.sessions.length with hlt | hge
  · obtain ⟨ls, hran⟩ := h.ran i _ (List.getElem?_eq_getElem hlt)
    rw [hran.commands] at htagged
    obtain ⟨cmd', hsent, _⟩ := List.mem_map.1 htagged
    obtain ⟨e, he, hcmd⟩ := List.mem_filterMap.1 hsent
    have hpr : e.privileged = true := by
      cases e with
      | command cmd => rfl
      | send reply => cases hcmd
    obtain ⟨before, hfirst, hlogin⟩ := Websocket.run_privileged hran.reached he hpr
    refine ⟨before.filter Websocket.Label.heeded, ?_, Websocket.loggedIn_heeded hlogin⟩
    rw [← hran.own]
    exact hfirst.filter _
  · rw [(h.none i hge).2] at htagged
    cases htagged

/-- **Every session is served as if it were alone**: its client is sent what was broadcast, in order and once, its
commands reach the channel, and the homes it gets are current when its requests are. -/
theorem sessions_served (h : run (Server.step site) (init site) past = some s) (hget : s.sessions[i]? = some c) :
    SessionServed site past s i c := by
  obtain ⟨ls, hran⟩ := (run_sessions h).ran i c hget
  refine ⟨?_, hran.commands, ?_, ?_⟩
  · obtain ⟨sent, hb, he⟩ := (Websocket.forwards_run hran.reached).events
    exact ⟨sent, hb ▸ hran.since, he⟩
  · exact fun cmd hm => (run_sessions h).login hm
  · intro data hm
    obtain ⟨handler, ha⟩ := hran.homes data hm
    exact ⟨handler, (run_parts h).home ha⟩

/-- Steps that leave a session behind leave it where it was. -/
theorem behind_step (hs : Step site s l s') (hget : s.sessions[i]? = some c) (hlag : site.ring < c.rxFeedbackEvt.length) :
    ∃ c', s'.sessions[i]? = some c' ∧ Websocket.events c'.log = Websocket.events c.log ∧
      site.ring < c'.rxFeedbackEvt.length := by
  have hbroadcast : ∀ (t : St) (origin : Origin) (ioData : IOData),
      (∃ c', t.sessions[i]? = some c' ∧ Websocket.events c'.log = Websocket.events c.log ∧
        site.ring < c'.rxFeedbackEvt.length) →
      ∃ c', (t.broadcast origin ioData).sessions[i]? = some c' ∧ Websocket.events c'.log = Websocket.events c.log ∧
        site.ring < c'.rxFeedbackEvt.length := by
    rintro t origin ioData ⟨c', hi, he, hl⟩
    refine ⟨hearing ioData c', by simp [St.broadcast, hi], he, ?_⟩
    rw [show (hearing ioData c').rxFeedbackEvt = c'.rxFeedbackEvt ++ [ioData] from rfl, List.length_append]
    omega
  have hmoved : ∀ {j : Nat} {d d' : Websocket.St} {lw : Websocket.Label}, s.sessions[j]? = some d →
      Websocket.step site.verify site.parseJson d lw = some d' → (j = i → lw ≠ .feedback true) →
      ∃ c', (s.sessions.set j d')[i]? = some c' ∧ Websocket.events c'.log = Websocket.events c.log ∧
        site.ring < c'.rxFeedbackEvt.length := by
    intro j d d' lw hj hstep hlw
    by_cases hji : j = i
    · subst hji
      rw [hget] at hj
      cases hj
      obtain ⟨hlen, he⟩ := Websocket.step_behind hstep (hlw rfl)
      exact ⟨d', by rw [List.getElem?_set_self (List.getElem?_eq_some_iff.1 hget).1], he, by omega⟩
    · exact ⟨c, by rw [List.getElem?_set_ne hji, hget], rfl, hlag⟩
  cases hs with
  | datagram datagram request hp hr lastChange outs hh =>
    exact broadcasts_keep (P := fun t => ∃ c', t.sessions[i]? = some c' ∧
      Websocket.events c'.log = Websocket.events c.log ∧ site.ring < c'.rxFeedbackEvt.length)
      (fun t => hbroadcast t .input) (MainServer.broadcasts outs)
      { s with lastChange := lastChange, pending := MainServer.commands outs } ⟨c, hget, rfl, hlag⟩
  | tell n ioData rest hout hn ho => exact hbroadcast _ _ _ ⟨c, hget, rfl, hlag⟩
  | accept =>
    refine ⟨c, ?_, rfl, hlag⟩
    rw [List.getElem?_append_left (List.getElem?_eq_some_iff.1 hget).1]
    exact hget
  | alone j d d' lw hj hal hstep =>
    refine hmoved hj hstep ?_
    rintro rfl rfl
    rw [hget] at hj
    cases hj
    have hok : true = decide (c.rxFeedbackEvt.length ≤ site.ring) := hal
    have := of_decide_eq_true hok.symm
    omega
  | commanded j d d' cmd hj hp hroom hstep => exact hmoved hj hstep (by simp)
  | garbled | submit | mqtt | recv | send | hear | lagged | dispatch | dispatched | start | unreachable | turn
  | returns | quit => exact ⟨c, hget, rfl, hlag⟩

/-- **A client that falls behind is lost**: once more values wait in its receiver than there are slots, it is never
sent another one, even if none was sent because it had not logged in. -/
theorem falls_behind (hget : s.sessions[i]? = some c) (hlag : site.ring < c.rxFeedbackEvt.length)
    {ls : List (Label Addr)} (hr : run (Server.step site) s ls = some s') :
    ∃ c', s'.sessions[i]? = some c' ∧ Websocket.events c'.log = Websocket.events c.log ∧
      site.ring < c'.rxFeedbackEvt.length := by
  refine run_invariant (Server.step site) (I := fun t => ∃ c', t.sessions[i]? = some c' ∧
    Websocket.events c'.log = Websocket.events c.log ∧ site.ring < c'.rxFeedbackEvt.length) ?_ ⟨c, hget, rfl, hlag⟩ hr
  rintro t l t' ⟨c', hi, he, hl⟩ hs
  obtain ⟨d, hd, hed, hld⟩ := behind_step (Step.of_step hs).2 hi hl
  exact ⟨d, hd, hed.trans he, hld⟩

end

/-- Somebody logs in after the bell was rung, hears of it, and asks for the home. -/
def visits : List (Label Nat) :=
  [.accept, .datagram (MainServer.textAt "WAGO INT 7 1" 0), .session 0 (.next (some (.text Websocket.aliceText))),
    .session 0 (.sent true), .session 0 (.feedback true), .session 0 (.sent true),
    .session 0 (.next (some (.text Snapshot.getHomeText))), .session 0 (.commanded true), .submit, .recv]

theorem sessions_served_visitor : ∃ (s : St) (c : Websocket.St),
    run (step (porchSite false)) (init (porchSite false)) visits = some s ∧ s.sessions[0]? = some c ∧
    Websocket.events c.log = [EventData.new .ioChanged ⟨"bell", .bool true⟩] ∧
    SessionServed (porchSite false) visits s 0 c := by
  have hrun : ((run (step (porchSite false)) (init (porchSite false)) visits).bind fun s =>
      (s.sessions[0]?).map fun c => Websocket.events c.log) =
        some [EventData.new .ioChanged ⟨"bell", .bool true⟩] := by decide +kernel
  obtain ⟨s, hs, hevents⟩ := Option.bind_eq_some_iff.1 hrun
  obtain ⟨c, hc, hlog⟩ := Option.map_eq_some_iff.1 hevents
  exact ⟨s, c, hs, hc, hlog, sessions_served hs hc⟩

/-! ### A client that waits too long -/

section
variable {Ip : Type} [DecidableEq Ip] {site : Site Ip} {Addr : Type}

/-- What a session can do alone, it can do in the server. -/
theorem step_alone {s : St} {i : Nat} {c c' : Websocket.St} {l : Websocket.Label} (hrun : s.running = true)
    (hget : s.sessions[i]? = some c) (hal : Alone site s i c l)
    (hs : Websocket.step site.verify site.parseJson c l = some c') :
    Server.step site s (.session i l : Label Addr) = some { s with sessions := s.sessions.set i c' } := by
  have hmoved : s.moved site i c l = some { s with sessions := s.sessions.set i c' } := by
    rw [St.moved, hs]
    rfl
  rw [Server.step, if_pos hrun]
  simp only [sessionStep, hget]
  cases l with
  | next | sent => exact hmoved
  | feedback ok => exact (if_pos hal).trans hmoved
  | answer data =>
    obtain ⟨handler, answer, hp, rfl, hmem⟩ := hal
    simp only [hp]
    exact (if_pos hmem).trans hmoved
  | broadcast | commanded => exact hal.elim

/-- A long-press button is pressed again and again: everyone hears of it, and nothing is asked of the engine. -/
theorem run_presses {datagram : MainServer.Datagram Addr} {data : Protocol.WagoData} {input : Input} {wio : WagoIO}
    (hr : MainServer.asyncUdpRead datagram = some (.wagoInt data))
    (hvar : (MainServer.makeInputVarMap site.io).lookup data.var = some input)
    (hkind : input.kind = .wiDigitalLong wio) (hon : MainServer.toBool data.value = true) (count : Nat) {s : St}
    (hrun : s.running = true) (hp : s.pending = []) :
    ∃ t, run (Server.step site) s (List.replicate count (.datagram datagram)) = some t ∧ t.running = true ∧
      t.sessions = s.sessions.map fun c =>
        { c with rxFeedbackEvt := c.rxFeedbackEvt ++ List.replicate count ⟨input.id, .bool true⟩ } := by
  have hruns := run_replicate (Server.step site) (l := .datagram datagram)
    (I := fun left t => t.running = true ∧ t.pending = [] ∧ ∃ done, done + left = count ∧
      t.sessions = s.sessions.map fun c =>
        { c with rxFeedbackEvt := c.rxFeedbackEvt ++ List.replicate done ⟨input.id, .bool true⟩ }) ?_
    ⟨hrun, hp, 0, Nat.zero_add count, by simp⟩
  · obtain ⟨t, hr, hrunning, _, done, hcount, hsessions⟩ := hruns
    rw [Nat.add_zero] at hcount
    exact ⟨t, hr, hrunning, hcount ▸ hsessions⟩
  · rintro left t ⟨hrunning, hpending, done, hcount, hsessions⟩
    have hhandle : MainServer.handle (MainServer.makeInputVarMap site.io) t.lastChange datagram (.wagoInt data) =
        (t.lastChange.insert data.var datagram.now, [.feedback ⟨input.id, .bool true⟩]) := by
      simp [MainServer.handle, hvar, hkind, hon]
    refine ⟨{ t with lastChange := t.lastChange.insert data.var datagram.now, pending := [] }.broadcast .input
      ⟨input.id, .bool true⟩, ?_, hrunning, rfl, done + 1, by omega, ?_⟩
    · rw [Server.step, if_pos hrunning]
      simp only [datagramStep, hpending, if_true, hr, hhandle]
      rfl
    · simp [St.broadcast, hsessions, hearing, List.replicate_succ', Function.comp_def]

end

/-- A house with a long-press button at the gate. -/
def gateHouse : IoConfig :=
  ⟨⟨[⟨"Gate", "gate", [⟨"Gate", "gate", "", .wiDigitalLong ⟨"10.0.0.1", "502", 7⟩, "", true, true⟩], [], 0⟩]⟩⟩

def gateSite : Site String where
  io := gateHouse
  rulesConfig := ⟨[]⟩
  noOutput := false
  nodeId := "calaos"
  parse := OutputControllers.twoHosts
  configs := []
  enumerates := by decide +kernel
  env _ := Wago.plcEnv 0 100
  world _ := Wago.idleWorld
  verify := verifyLogin none none
  parseJson := Snapshot.houseParse
  ring := channelCapacity
  le_ring := Nat.le_refl _

/-- Somebody connects, and the button is pressed once more than there are slots. -/
def overrun : List (Label Nat) :=
  .accept :: List.replicate (channelCapacity + 1) (.datagram (MainServer.textAt "WAGO INT 7 1" 0))

/-- The session then, -/
def latecomer : Websocket.St :=
  { Websocket.init with rxFeedbackEvt := List.replicate (channelCapacity + 1) ⟨"gate", .bool true⟩ }

/-- and after a login. -/
def welcomed : Websocket.St :=
  { latecomer with authenticated := true, phase := .send false, log := [.send (.text (.login ⟨true⟩))] }

/-- A login, and the first value that is not there any more. -/
def tooLate : List (Label Nat) :=
  [.session 0 (.next (some (.text Websocket.aliceText))), .session 0 (.sent true), .session 0 (.feedback false)]

/-- She logs in, and is dropped. -/
theorem falls_behind_visitor : ∃ (s s' : St) (c' : Websocket.St),
    run (step gateSite) (init gateSite) overrun = some s ∧ run (step gateSite) s tooLate = some s' ∧
    s'.sessions[0]? = some c' ∧ c'.authenticated = true ∧ Websocket.events c'.log = [] := by
  have hread : MainServer.asyncUdpRead (MainServer.textAt "WAGO INT 7 1" 0) = some (.wagoInt ⟨7, 1⟩) := by decide +kernel
  have hvar : (MainServer.makeInputVarMap gateSite.io).lookup 7 =
      some ⟨"Gate", "gate", "", .wiDigitalLong ⟨"10.0.0.1", "502", 7⟩, "", true, true⟩ := by decide +kernel
  have haccept : Server.step gateSite (init gateSite) (.accept : Label Nat) =
      some { init gateSite with sessions := [Websocket.init] } := rfl
  obtain ⟨s, hs, hrun, hsessions⟩ := run_presses hread hvar rfl (by decide) (channelCapacity + 1)
    (s := { init gateSite with sessions := [Websocket.init] }) rfl rfl
  have hpast : run (step gateSite) (init gateSite) overrun = some s := (run_cons _).2 ⟨_, haccept, hs⟩
  have hc : s.sessions = [latecomer] := hsessions
  have hlag : gateSite.ring < latecomer.rxFeedbackEvt.length := by
    rw [latecomer, List.length_replicate]
    exact Nat.lt_succ_self _
  have hlogin : Server.step gateSite s (.session 0 (.next (some (.text Websocket.aliceText))) : Label Nat) =
      some { s with sessions := s.sessions.set 0 welcomed } := step_alone hrun (by rw [hc]; rfl) trivial rfl
  have hsent : Server.step gateSite { s with sessions := [welcomed] } (.session 0 (.sent true) : Label Nat) =
      some { s with sessions := [{ welcomed with phase := .select }] } := step_alone hrun rfl trivial rfl
  have hdropped : Server.step gateSite { s with sessions := [{ welcomed with phase := .select }] }
      (.session 0 (.feedback false) : Label Nat) = some { s with sessions := [{ welcomed with phase := .closed }] } :=
    step_alone hrun rfl (decide_eq_false (Nat.not_le_of_gt hlag)).symm rfl
  rw [hc] at hlogin
  have hlate : run (step gateSite) s tooLate = some { s with sessions := [{ welcomed with phase := .closed }] } :=
    (run_cons _).2 ⟨_, hlogin, (run_cons _).2 ⟨_, hsent, (run_cons _).2 ⟨_, hdropped, rfl⟩⟩⟩
  obtain ⟨c', hget, he, _⟩ := falls_behind (show s.sessions[0]? = some latecomer by rw [hc]; rfl) hlag hlate
  obtain rfl := Option.some.inj hget
  exact ⟨s, _, _, hpast, hlate, rfl, rfl, he⟩

end Server

end Calaos
