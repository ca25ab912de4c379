import Calaos.ServerWork
/-!
# The tasks of the server do not hang on each other

Every channel of the server is bounded, and whoever finds one full waits. The senders wait for each other in a line:
the sessions and `main_server` for `handle_input`, that for `handle_rx`, that for a controller, and a controller for
the PLC alone. So as long as no branch has ended something can go on, unless there is nothing left to do
(`still_quiet`); and since each step leaves less to do, everything comes to that whatever the order is
(`comes_to_rest`).

That is as long as the PLCs answer, if only with an error. A turn of a controller is one step, with all its requests to
the PLC, and there is no limit to the wait for one: a PLC that takes a connection and then says nothing holds up its
controller, and those who wait for it.

`Quiet` is what has been reached then: no command is on its way and nobody waits for room or for an answer. What is left
are events that wait in the receiver of a session, whose client is as fast as it is.
-/
namespace Calaos

namespace Engine

open Runs

section
variable {io : IoConfig} {rulesConfig : Rules.RulesConfig} {s t : St}

/-- `handle_input` waits, and `run` has not returned. -/
def Pc.Alive : Pc → Prop
  | .recv | .send _ _ _ => True
  | _ => False

theorem resume_alive (s : St) (actions : List Rules.Action) (rules : List Rules.Rule) :
    (resume s actions rules).pc.Alive := by
  unfold resume
  split <;> trivial

theorem handleCommand_alive (hp : s.pc = .recv) (command : IODataCmd) : (handleCommand io s command).pc.Alive := by
  have halive : s.pc.Alive := by
    rw [hp]
    trivial
  cases command with
  | getAllData handler => exact halive
  | action ioAction =>
    simp only [handleCommand]
    split
    · split
      · exact resume_alive _ _ _
      · exact halive
    · trivial

/-- Every request is answered at once. -/
theorem answered_run {ls : List Label} (h : run (step io) (init io rulesConfig) ls = some s) {handler : Nat}
    (hc : .getAllData handler ∈ commands ls) : ∃ data, (handler, data) ∈ s.answers := by
  have key := run_traced (step io) (I := fun past t =>
      .getAllData handler ∈ commands past → ∃ data, (handler, data) ∈ t.answers) ?_ (by simp [commands]) h
  · exact key hc
  · intro past t l t' ih hs hmem
    rw [(step_maps hs).2.2]
    rw [commands_append, List.mem_append] at hmem
    rcases hmem with hmem | hmem
    · obtain ⟨data, hd⟩ := ih hmem
      exact ⟨data, List.mem_append_left _ hd⟩
    · cases l with
      | recv command =>
        cases command with
        | none => cases hmem
        | some command =>
          have hcommand : command = .getAllData handler := by simpa [commands, eq_comm] using hmem
          subst hcommand
          exact ⟨_, List.mem_append_right _ (List.mem_singleton.2 rfl)⟩
      | sent | sendFails | feedback | feedbackFails => cases hmem

end

end Engine

namespace Server

open Runs Queue
open OutputControllers (channelCapacity)

section
variable {Ip : Type} [DecidableEq Ip] (site : Site Ip)

/-- Whoever waits for an answer has asked for it. -/
def Asked (s : St) : Prop :=
  ∀ (i : Nat) (c : Websocket.St) (handler : Nat), s.sessions[i]? = some c → c.phase = .answer handler →
    (.session i, .getAllData (Nat.pair i handler)) ∈ s.inputEvt.log

/-- Nobody has ended that the others need, and whoever waits for an answer has asked. -/
structure Alive (s : St) : Prop where
  engine : s.running = true → s.engine.pc.Alive
  dispatch : s.dispatch.pc = .recv ∨ ∃ n ioData, s.dispatch.pc = .send n ioData
  asked : Asked s

/-- There is nothing left to do: every command has been executed, every value has been heard by the rules engine, every
request answered, and every controller is in its loop. -/
structure Quiet (s : St) : Prop where
  pending : s.pending = []
  sessions : ∀ c ∈ s.sessions, c.phase.serving = false
  inputEvt : s.inputEvt.waiting = []
  engine : s.engine.pc = .recv
  outputCmd : s.outputCmd.waiting = []
  dispatch : s.dispatch.pc = .recv
  queues : ∀ n, s.dispatch.queues n = []
  controllers : ∀ n, n < site.size → (s.controllers n).status = .looping ∧ (s.controllers n).outbox = []
  feedback : s.feedback.waiting = []

/-- The same, computed: there is only a finite number of controllers. -/
def atRest (s : St) : Bool :=
  decide (s.pending = [] ∧ (∀ c ∈ s.sessions, c.phase.serving = false) ∧ s.inputEvt.waiting = [] ∧
    s.outputCmd.waiting = [] ∧ s.dispatch.pc = .recv ∧ (∀ n < site.size, s.dispatch.queues n = [] ∧
      (s.controllers n).status = .looping ∧ (s.controllers n).outbox = []) ∧ s.feedback.waiting = []) &&
  match s.engine.pc with
  | .recv => true
  | _ => false

end

section
variable {Ip : Type} [DecidableEq Ip] {site : Site Ip} {Addr : Type} {s s' : St} {l : Label Addr}

/-! ## Nobody has ended -/

theorem alive_engine (h : s.running = true → s.engine.pc.Alive) (hrun : s.running = true) (hs : Step site s l s') :
    s'.running = true → s'.engine.pc.Alive := by
  intro hr
  cases hs with
  | garbled | lagged | returns | quit => cases hr
  | datagram datagram request hp hreq lastChange outs hh =>
    exact broadcasts_keep (P := fun t => t.engine.pc.Alive) (fun _ _ ht => ht) (MainServer.broadcasts outs) _ (h hrun)
  | recv command inputEvt engine ht he =>
    cases Engine.Step.of_step he with
    | command _ hp => exact Engine.handleCommand_alive hp _
  | send command actions rules engine hp hroom he =>
    cases Engine.Step.of_step he with
    | sent => exact Engine.resume_alive _ _ _
  | hear ioData feedback engine ht hlag he =>
    cases Engine.Step.of_step he with
    | feedback => exact h hrun
  | submit | accept | alone | commanded | mqtt | dispatch | dispatched | start | unreachable | turn | tell =>
    exact h hrun

theorem alive_dispatch (h : s.dispatch.pc = .recv ∨ ∃ n ioData, s.dispatch.pc = .send n ioData)
    (hs : Step site s l s') : s'.dispatch.pc = .recv ∨ ∃ n ioData, s'.dispatch.pc = .send n ioData := by
  cases hs with
  | datagram datagram request hp hreq lastChange outs hh =>
    exact broadcasts_keep (P := fun t => t.dispatch.pc = .recv ∨ ∃ n ioData, t.dispatch.pc = .send n ioData)
      (fun _ _ ht => ht) (MainServer.broadcasts outs) _ h
  | dispatch ioData outputCmd dispatch hout ht hd =>
    cases OutputControllers.Step.of_step hd with
    | dispatched _ channel => exact .inr ⟨channel, ioData.2, rfl⟩
    | unknown => exact h
  | dispatched dispatch hout hd =>
    cases OutputControllers.Step.of_step hd with
    | sent => exact .inl rfl
  | turn n lw dispatch hout hn hst ho hl ht =>
    rcases takeFor_cases ht with ⟨rfl, _⟩ | ⟨ioData, _, _, hd⟩
    · exact h
    · cases OutputControllers.Step.of_step hd with
      | take => exact h
  | garbled | submit | accept | alone | commanded | mqtt | recv | send | hear | lagged | start | unreachable | tell
  | returns | quit => exact h

theorem handleRequest_not_answer (verify : String → String → Bool) (c : Websocket.St) (request : Request)
    (handler : Nat) : (Websocket.handleRequest verify c request).phase ≠ .answer handler := by
  cases request with
  | pong | event => simp [Websocket.handleRequest, Websocket.St.send]
  | login | getHome | setState =>
    simp only [Websocket.handleRequest]
    split <;> simp [Websocket.St.send, Websocket.St.refuse]

/-- Whoever waits for an answer has just asked, or waited for it before. -/
theorem answer_of_step {verify : String → String → Bool} {parse : String → Option Serde.Json} {c c' : Websocket.St}
    {lc : Websocket.Label} {handler : Nat} (hs : Websocket.step verify parse c lc = some c')
    (hp : c'.phase = .answer handler) :
    c.phase = .answer handler ∨ (lc = .commanded true ∧ c.phase = .command (.getAllData handler)) := by
  cases Websocket.Step.of_step hs with
  | broadcast => exact .inl hp
  | served msg request hsel hr =>
    exact absurd hp (handleRequest_not_answer verify c request handler)
  | requested handler' hcmd =>
    cases hp
    exact .inr ⟨rfl, hcmd⟩
  | sent ok close =>
    cases ok <;> cases close <;> cases hp
  | ended | feedback | commanded | answer | failed => cases hp

theorem Asked.broadcast (h : Asked s) (origin : Origin) (ioData : IOData) : Asked (s.broadcast origin ioData) := by
  intro i c handler hi hp
  simp only [St.broadcast, List.getElem?_map, Option.map_eq_some_iff] at hi
  obtain ⟨c₀, hi₀, rfl⟩ := hi
  exact h i c₀ handler hi₀ hp

theorem Asked.step (h : Asked s) (hs : Step site s l s') : Asked s' := by
  cases hs with
  | datagram datagram request hp hreq lastChange outs hh =>
    exact broadcasts_keep (fun t ioData (ht : Asked t) => ht.broadcast .input ioData) (MainServer.broadcasts outs) _
      (show Asked { s with lastChange := lastChange, pending := MainServer.commands outs } from h)
  | tell n ioData rest hout hn ho =>
    exact Asked.broadcast (s := s.setController n { s.controllers n with told := (s.controllers n).told + 1 }) h _ _
  | submit ioAction rest hp hroom =>
    intro i c handler hi hpc
    exact List.mem_append_left _ (h i c handler hi hpc)
  | accept =>
    intro i c handler hi hpc
    rw [List.getElem?_append] at hi
    split at hi
    · exact h i c handler hi hpc
    · rw [List.getElem?_singleton] at hi
      split at hi
      · cases hi
        cases hpc
      · cases hi
  | alone i c c' lc hi hal hc =>
    intro j d handler hj hpd
    rcases set_cases hi hj with ⟨rfl, rfl⟩ | ⟨_, hj⟩
    · rcases answer_of_step hc hpd with hbefore | ⟨rfl, _⟩
      · exact h j c handler hi hbefore
      · exact hal.elim
    · exact h j d handler hj hpd
  | commanded i c c' cmd hi hp hroom hc =>
    intro j d handler hj hpd
    rcases set_cases hi hj with ⟨rfl, rfl⟩ | ⟨_, hj⟩
    · rcases answer_of_step hc hpd with hbefore | ⟨_, hcmd⟩
      · exact List.mem_append_left _ (h j c handler hi hbefore)
      · rw [hp] at hcmd
        cases hcmd
        exact List.mem_append_right _ (List.mem_singleton.2 rfl)
    · exact List.mem_append_left _ (h j d handler hj hpd)
  | recv command inputEvt engine ht he =>
    intro i c handler hi hpc
    simp only [ht.log]
    exact h i c handler hi hpc
  | garbled | mqtt | send | hear | lagged | dispatch | dispatched | start | unreachable | turn | returns | quit =>
    exact h

theorem Alive.step (h : Alive s) (hs : Server.step site s l = some s') : Alive s' := by
  obtain ⟨hrun, hstep⟩ := Step.of_step hs
  exact ⟨alive_engine h.engine hrun hstep, alive_dispatch h.dispatch hstep, h.asked.step hstep⟩

theorem run_alive {ls : List (Label Addr)} (h : run (Server.step site) (init site) ls = some s) : Alive s :=
  run_invariant (Server.step site) (fun _ _ _ => Alive.step)
    ⟨fun _ => show Engine.Pc.Alive .recv from trivial, .inl rfl, fun i c handler hi => by simp [init] at hi⟩ h

/-! ## Something can go on -/

/-- Nothing is dispatched to a controller that there is not. -/
theorem Traced.queues (h : Traced site s) {n : Nat} (hn : site.size ≤ n) : s.dispatch.queues n = [] := by
  obtain ⟨ld, hd⟩ := h.dispatch
  have hreceived := OutputControllers.received_run hd.reached hd.fine n
  have hnone : (OutputControllers.commands ld).filter
      (fun ioData => decide (site.launched.reverseMap.lookup ioData.id = some n)) = [] := by
    rw [List.filter_eq_nil_iff]
    intro ioData _ hl
    have hlt := channel_lt (of_decide_eq_true hl)
    omega
  rw [hnone, OutputControllers.St.received, List.append_eq_nil_iff, List.append_eq_nil_iff] at hreceived
  exact hreceived.1.2

theorem Traced.quiet (h : Traced site s) (hrest : atRest site s = true) : Quiet site s := by
  obtain ⟨hchecks, hp⟩ := (Bool.and_eq_true _ _).mp hrest
  obtain ⟨hpending, hsessions, hinput, houtput, hdispatch, hcontrollers, hfeedback⟩ := of_decide_eq_true hchecks
  have hengine : s.engine.pc = .recv := by
    split at hp
    · assumption
    · cases hp
  refine ⟨hpending, hsessions, hinput, hengine, houtput, hdispatch, fun n => ?_, fun n hn => (hcontrollers n hn).2,
    hfeedback⟩
  rcases Nat.lt_or_ge n site.size with hn | hn
  · exact (hcontrollers n hn).1
  · exact h.queues hn

theorem exists_enumerates {κ υ : Type} [DecidableEq κ] (m : HMap κ υ) : ∃ order, HMap.Enumerates order m :=
  ⟨m.keys.toList, m.keys.nodup_toList, fun k => by rw [Finset.mem_toList, Finmap.mem_keys]⟩

/-- The controllers have said everything, and they are in their loops with nothing in their channels. -/
theorem still_controller (ht : Traced site s) (hrun : s.running = true) (hout : site.noOutput = false)
    (hstill : Still (Server.step site) (Own : Label Addr → Prop) s) {n : Nat} (hn : n < site.size) :
    (s.controllers n).status = .looping ∧ (s.controllers n).outbox = [] ∧ s.dispatch.queues n = [] := by
  have hbox : (s.controllers n).outbox = [] := by
    by_contra hne
    obtain ⟨ioData, rest, ho⟩ := List.exists_cons_of_ne_nil hne
    have htell := hstill (.tell n) trivial
    simp [Server.step, hrun, tellStep, hout, hn, ho] at htell
  have hstatus : (s.controllers n).status = .looping := by
    cases hc : (s.controllers n).status with
    | looping => rfl
    | starting =>
      obtain ⟨order, ho⟩ := exists_enumerates (site.outputs n)
      have hstart := hstill (.start n order) trivial
      simp [Server.step, hrun, startStep, hout, hn, hc, ho] at hstart
    | returned =>
      have hreturns := hstill (.returns n) trivial
      simp [Server.step, hrun, returnsStep, hout, hn, hc, hbox] at hreturns
  refine ⟨hstatus, hbox, ?_⟩
  cases hq : s.dispatch.queues n with
  | nil => rfl
  | cons ioData rest =>
    have hopen : (s.controllers n).st.closed = false := by
      have hran := ht.controller n
      generalize s.controllers n = c at hran hstatus ⊢
      cases hran with
      | looping order s₀ st ls told ho hs₀ hr hc hopen => exact hopen
      | starting => cases hstatus
      | returned => cases hstatus
    have hturn := hstill (.turn n (.recv (some ioData))) trivial
    simp [Server.step, hrun, turnStep, hout, hn, hstatus, hbox, Wago.enabled, hopen, takeFor, hq,
      OutputControllers.step] at hturn

/-- **Nobody waits for somebody who waits.** Where the server can do nothing by itself, nothing is left to do. -/
theorem still_quiet (ht : Traced site s) (ha : Alive s) (hrun : s.running = true) (hout : site.noOutput = false)
    (hstill : Still (Server.step site) (Own : Label Addr → Prop) s) : Quiet site s := by
  have hcontroller := fun n hn => still_controller (n := n) ht hrun hout hstill hn
  have hqueues : ∀ n, s.dispatch.queues n = [] := by
    intro n
    rcases Nat.lt_or_ge n site.size with hn | hn
    · exact (hcontroller n hn).2.2
    · exact ht.queues hn
  have hcapacity : 0 < channelCapacity := by decide
  -- What the controllers say is heard.
  have hfeedback : s.feedback.waiting = [] := by
    by_contra hne
    obtain ⟨ioData, feedback, htake⟩ := take_isSome hne
    have halive := ha.engine hrun
    have hhear := hstill .hear trivial
    simp only [Server.step, hrun, if_true, hearStep, htake, Option.bind_some] at hhear
    cases hp : s.engine.pc with
    | done | stopped =>
      rw [hp] at halive
      exact halive.elim
    | recv | send => split at hhear <;> simp [Engine.step, hp] at hhear
  -- `handle_rx` finds room, and then the engine, and then everyone else.
  have hdispatch : s.dispatch.pc = .recv := by
    rcases ha.dispatch with hp | ⟨n, ioData, hp⟩
    · exact hp
    · have hsent := hstill .dispatched trivial
      simp [Server.step, hrun, dispatchedStep, hout, OutputControllers.step, hp, hqueues n, hcapacity] at hsent
  have houtput : s.outputCmd.waiting = [] := by
    by_contra hne
    obtain ⟨ioData, outputCmd, htake⟩ := take_isSome hne
    have hd := hstill .dispatch trivial
    simp only [Server.step, hrun, if_true, dispatchStep, hout, Bool.false_eq_true, if_false, htake, Option.bind_some,
      OutputControllers.step, hdispatch] at hd
    split at hd <;> simp at hd
  have hengine : s.engine.pc = .recv := by
    have halive := ha.engine hrun
    cases hp : s.engine.pc with
    | recv => rfl
    | done | stopped =>
      rw [hp] at halive
      exact halive.elim
    | send command actions rules =>
      have hsend := hstill .send trivial
      simp [Server.step, hrun, sendStep, hp, put, houtput, hcapacity, Engine.step] at hsend
  have hinput : s.inputEvt.waiting = [] := by
    by_contra hne
    obtain ⟨command, inputEvt, htake⟩ := take_isSome hne
    have hrecv := hstill .recv trivial
    simp [Server.step, hrun, recvStep, htake, Engine.step, hengine] at hrecv
  have hpending : s.pending = [] := by
    cases hp : s.pending with
    | nil => rfl
    | cons ioAction rest =>
      have hsubmit := hstill .submit trivial
      simp [Server.step, hrun, submitStep, hp, put, hinput, hcapacity] at hsubmit
  refine ⟨hpending, ?_, hinput, hengine, houtput, hdispatch, hqueues, fun n hn => ?_, hfeedback⟩
  · intro c hc
    obtain ⟨i, hi⟩ := List.mem_iff_getElem?.1 hc
    cases hp : c.phase with
    | select | send | closed => rfl
    | command cmd =>
      have hcommanded := hstill (.session i (.commanded true)) trivial
      cases cmd <;>
        simp [Server.step, hrun, sessionStep, hi, hp, put, hinput, hcapacity, St.moved, Websocket.step] at hcommanded
    | answer handler =>
      obtain ⟨le, hran⟩ := ht.engine
      have hasked := ha.asked i c handler hi hp
      rw [← taken_append_waiting, hinput, List.append_nil] at hasked
      have htaken : .getAllData (Nat.pair i handler) ∈ Engine.commands le := by
        rw [hran.commands]
        exact List.mem_map.2 ⟨_, hasked, rfl⟩
      obtain ⟨data, hdata⟩ := Engine.answered_run hran.reached htaken
      have hanswer := hstill (.session i (.answer (some data))) trivial
      simp [Server.step, hrun, sessionStep, hi, hp, hdata, St.moved, Websocket.step] at hanswer
  · exact ⟨(hcontroller n hn).1, (hcontroller n hn).2.1⟩

/-- **The tasks of the server do not hang on each other.** From every state that the server can reach, it takes at most
`work` steps by itself, in whatever order they come; there is a way to come to rest; and once it can do nothing by
itself, it has ended, or there is nothing left to do. -/
theorem comes_to_rest {past : List (Label Addr)} (hout : site.noOutput = false)
    (h : run (Server.step site) (init site) past = some s) :
    (∀ (ls : List (Label Addr)) (s' : St), (∀ l ∈ ls, Own l) → run (Server.step site) s ls = some s' →
      ls.length ≤ work site s) ∧
    (∃ (ls : List (Label Addr)) (s' : St), (∀ l ∈ ls, Own l) ∧ run (Server.step site) s ls = some s' ∧
      Still (Server.step site) (Own : Label Addr → Prop) s') ∧
    (Still (Server.step site) (Own : Label Addr → Prop) s → s.running = true → Quiet site s) := by
  have hdec : ∀ (t : St) (l : Label Addr) (t' : St), Traced site t → Own l → Server.step site t l = some t' →
      Traced site t' ∧ work site t' < work site t :=
    fun t l t' ht hl hs => ⟨ht.step hs, own_step_work ht hl hs⟩
  have ht := run_parts h
  refine ⟨fun ls s' hown hr => ?_, exists_still hdec s ht, fun hstill hrun => ?_⟩
  · have hlen := (own_run_length hdec ht hown hr).2
    omega
  · exact still_quiet ht (run_alive h) hrun hout hstill

end

/-- Somebody has rung, and the server comes to rest. -/
theorem comes_to_rest_porch : ∃ s : St, run (Server.step (porchSite false)) (init (porchSite false)) rings = some s ∧
    (∃ (ls : List (Label Nat)) (s' : St), (∀ l ∈ ls, Own l) ∧ run (Server.step (porchSite false)) s ls = some s' ∧
      Still (Server.step (porchSite false)) (Own : Label Nat → Prop) s') ∧
    ∀ (ls : List (Label Nat)) (s' : St), (∀ l ∈ ls, Own l) → run (Server.step (porchSite false)) s ls = some s' →
      ls.length ≤ work (porchSite false) s := by
  have hrun : (run (Server.step (porchSite false)) (init (porchSite false)) rings).isSome = true := by decide +kernel
  obtain ⟨s, hs⟩ := Option.isSome_iff_exists.1 hrun
  obtain ⟨hbound, hrest, _⟩ := comes_to_rest rfl hs
  exact ⟨s, hs, hrest, hbound⟩

end Server

end Calaos
