import Calaos.ServerTraces
import Calaos.Settling
/-!
# The work that is left in the server

The steps that the server takes by itself, without a datagram, a client, a timer or the MQTT client, all pass
something on: a command down the channels until its controller has executed it, a value up until everyone has heard
it. `work` counts how many such steps everything in the server may still take. No step makes more of it
(`own_step_work`): a rule sends at most its actions, a command makes a controller say at most one thing, and nobody
answers feedback with a command.
-/
namespace Calaos

/-! ## The engine -/

namespace Engine

/-- The actions that are left. -/
def left (actions : List Rules.Action) (rules : List Rules.Rule) : Nat :=
  actions.length + (rules.map (·.actions.length)).sum

/-- How many commands `handle_input` may still send before it waits for the next one. -/
def Pc.left : Pc → Nat
  | .send _ actions rules => 1 + Engine.left actions rules
  | _ => 0

/-- How many commands a command may make it send. -/
def load (inputMap : InputSharedContextMap) : IODataCmd → Nat
  | .action ioAction =>
    match inputMap.lookup ioAction.id with
    | some context => left [] context.rules
    | none => 1
  | .getAllData _ => 0

section
variable {io : IoConfig} {s t : St} {inputMap : InputSharedContextMap} {outputMap : OutputSharedContextMap}

theorem nextAction_left {command : IODataAction} {rest : List Rules.Action} :
    ∀ {actions : List Rules.Action}, nextAction outputMap actions = some (command, rest) →
      rest.length < actions.length
  | [], h => by cases h
  | action :: actions, h => by
    unfold nextAction at h
    split at h
    · cases h
      exact Nat.lt_succ_self _
    · have := nextAction_left h
      simp only [List.length_cons]
      omega

theorem nextRule_left {command : IODataAction} {actions : List Rules.Action} {rest : List Rules.Rule} :
    ∀ {rules : List Rules.Rule}, nextRule inputMap outputMap rules = some (command, actions, rest) →
      left actions rest < left [] rules
  | [], h => by cases h
  | rule :: rules, h => by
    have hcons : left [] (rule :: rules) = rule.actions.length + left [] rules := by simp [left]
    unfold nextRule at h
    rw [hcons]
    split at h
    · split at h
      · rename_i hn
        cases h
        have := nextAction_left hn
        simp only [left, List.length_nil]
        omega
      · have := nextRule_left h
        omega
    · have := nextRule_left h
      omega

/-- Each command sent is one action less. -/
theorem resume_left (s : St) (actions : List Rules.Action) (rules : List Rules.Rule) :
    (resume s actions rules).pc.left ≤ left actions rules := by
  unfold resume nextSend
  cases ha : nextAction s.outputMap actions with
  | some next =>
    obtain ⟨command, rest⟩ := next
    have := nextAction_left ha
    simp only [Pc.left, left]
    omega
  | none =>
    simp only
    cases hr : nextRule s.inputMap s.outputMap rules with
    | some next =>
      obtain ⟨command, rest, rules'⟩ := next
      have := nextRule_left hr
      have hle : left [] rules ≤ left actions rules := by simp [left]
      simp only [Pc.left]
      omega
    | none => exact Nat.zero_le _

variable (io) in
theorem handleCommand_left (hp : s.pc = .recv) (command : IODataCmd) :
    (handleCommand io s command).pc.left ≤ load s.inputMap command := by
  cases command with
  | getAllData handler =>
    simp only [handleCommand, hp]
    exact Nat.zero_le _
  | action ioAction =>
    simp only [handleCommand, load]
    cases s.inputMap.lookup ioAction.id with
    | none => exact Nat.le_refl 1
    | some context =>
      simp only
      split
      · exact resume_left _ _ _
      · rw [hp]
        exact Nat.zero_le _

theorem sent_left (h : step io s .sent = some t) : t.pc.left < s.pc.left := by
  cases Step.of_step h with
  | sent command actions rules hp =>
    have hle := resume_left { s with sent := s.sent ++ [command] } actions rules
    have hnow : s.pc.left = 1 + left actions rules := by rw [hp]; rfl
    omega

/-- It depends on the rules of the inputs alone. -/
theorem load_congr {inputMap' : InputSharedContextMap}
    (h : ∀ id, (inputMap.lookup id).map (·.rules) = (inputMap'.lookup id).map (·.rules)) (command : IODataCmd) :
    load inputMap command = load inputMap' command := by
  cases command with
  | getAllData handler => rfl
  | action ioAction =>
    have hid := h ioAction.id
    simp only [load]
    cases hl : inputMap.lookup ioAction.id with
    | none =>
      cases hl' : inputMap'.lookup ioAction.id with
      | none => rfl
      | some context' => simp [hl, hl'] at hid
    | some context =>
      cases hl' : inputMap'.lookup ioAction.id with
      | none => simp [hl, hl'] at hid
      | some context' =>
        simp only [hl, hl', Option.map_some, Option.some.injEq] at hid
        simp only [hid]

end

end Engine

/-! ## The server -/

namespace Server

open Runs Queue
open OutputControllers (channelCapacity)

/-- The steps that the server takes by itself. The others wait for somebody else: a datagram, a client who connects,
sends or is sent something (the forwarding of an event is one of these), the MQTT client, a timer, a PLC that cannot be
reached, and `quit`. -/
def Own {Addr : Type} : Label Addr → Prop
  | .submit | .recv | .send | .hear | .dispatch | .dispatched => True
  | .session _ (.commanded _) | .session _ (.answer _) => True
  | .start _ _ | .turn _ (.recv _) | .tell _ | .returns _ => True
  | _ => False

section
variable {Ip : Type} [DecidableEq Ip] (site : Site Ip)

/-- The steps that a command in `input_evt_channel` may take. -/
def commandWork (command : IODataCmd) : Nat :=
  1 + 6 * Engine.load (makeInputContextMap site.io site.rulesConfig) command

def phaseWork : Websocket.Phase → Nat
  | .command cmd => commandWork site cmd + 2
  | .answer _ => 1
  | _ => 0

def dispatchWork : OutputControllers.Pc → Nat
  | .send _ _ => 4
  | _ => 0

/-- A controller that starts says a value for each of its outputs at most. -/
def statusWork (n : Nat) : Status → Nat
  | .starting => 2 * (site.outputs n).keys.card + 2
  | .looping => 1
  | .returned => 0

def controllerWork (s : St) (n : Nat) : Nat :=
  statusWork site n (s.controllers n).status + 2 * (s.controllers n).outbox.length + 3 * (s.dispatch.queues n).length

/-- All of it but that of the controllers. -/
def channelWork (s : St) : Nat :=
  s.running.toNat + (s.pending.map fun ioAction => commandWork site (.action ioAction) + 1).sum +
    (s.sessions.map fun c => phaseWork site c.phase).sum +
    (s.inputEvt.waiting.map fun e => commandWork site e.2).sum + 6 * s.engine.pc.left +
    5 * s.outputCmd.waiting.length + dispatchWork s.dispatch.pc + s.feedback.waiting.length

/-- All the steps that the server may take by itself. -/
def work (s : St) : Nat := channelWork site s + ∑ n ∈ Finset.range site.size, controllerWork site s n

end

section
variable {Ip : Type} [DecidableEq Ip] {site : Site Ip} {Addr : Type} {s s' : St} {l : Label Addr}

theorem commandWork_addressed (i : Nat) (cmd : IODataCmd) :
    commandWork site (addressed i cmd) = commandWork site cmd := by
  cases cmd <;> rfl

/-- The rules entered under an input never change. -/
theorem Traced.load (h : Traced site s) (command : IODataCmd) :
    Engine.load s.engine.inputMap command =
      Engine.load (makeInputContextMap site.io site.rulesConfig) command := by
  obtain ⟨le, he⟩ := h.engine
  exact Engine.load_congr (fun id => Engine.run_rules he.reached id) command

/-- A broadcast is one more value to hear. -/
theorem work_broadcast (s : St) (origin : Origin) (ioData : IOData) :
    work site (s.broadcast origin ioData) = work site s + 1 := by
  have hsessions : ((s.sessions.map (hearing ioData)).map fun c => phaseWork site c.phase) =
      s.sessions.map fun c => phaseWork site c.phase := by
    rw [List.map_map]
    exact List.map_congr_left fun _ _ => rfl
  simp only [work, channelWork, controllerWork, St.broadcast, hsessions, waiting_add, List.length_append,
    List.length_singleton]
  omega

variable (site s s') in
/-- The work of one controller changes, and that in the channels. -/
theorem work_part {n : Nat} (hn : n < site.size)
    (hoff : ∀ m, m ≠ n → controllerWork site s' m = controllerWork site s m) :
    work site s' + controllerWork site s n + channelWork site s =
      work site s + controllerWork site s' n + channelWork site s' := by
  have hsum := sum_range_change hn hoff
  simp only [work]
  omega

/-- One controller changes, and nothing else. -/
theorem work_setController {n : Nat} {c : Controller} (hn : n < site.size) :
    work site (s.setController n c) + statusWork site n (s.controllers n).status +
        2 * (s.controllers n).outbox.length =
      work site s + statusWork site n c.status + 2 * c.outbox.length := by
  have hpart := work_part site s (s.setController n c) hn
    (by
      intro m hm
      simp only [controllerWork, St.setController, Function.update_of_ne hm])
  have hchannel : channelWork site (s.setController n c) = channelWork site s := rfl
  have hnew : controllerWork site (s.setController n c) n =
      statusWork site n c.status + 2 * c.outbox.length + 3 * (s.dispatch.queues n).length := by
    simp only [controllerWork, St.setController, Function.update_self]
  have hold : controllerWork site s n = statusWork site n (s.controllers n).status +
      2 * (s.controllers n).outbox.length + 3 * (s.dispatch.queues n).length := rfl
  omega

/-- A command is taken from a channel. -/
theorem work_take {n : Nat} {ioData : IODataAction} {dispatch : OutputControllers.St} (hn : n < site.size)
    (hp : dispatch.pc = s.dispatch.pc) (hq : s.dispatch.queues n = ioData :: dispatch.queues n)
    (hoff : ∀ m, m ≠ n → dispatch.queues m = s.dispatch.queues m) :
    work site { s with dispatch := dispatch } + 3 = work site s := by
  have hpart := work_part site s { s with dispatch := dispatch } hn
    (by
      intro m hm
      simp only [controllerWork, hoff m hm])
  simp only [controllerWork, hq, List.length_cons, channelWork, hp] at hpart
  omega

/-- The controllers stay as they are. -/
theorem work_lt (h : channelWork site s' < channelWork site s) (hd : s'.dispatch.queues = s.dispatch.queues)
    (hc : s'.controllers = s.controllers) : work site s' < work site s := by
  have hsame : ∀ n, controllerWork site s' n = controllerWork site s n := by
    intro n
    simp only [controllerWork, hd, hc]
  simp only [work, hsame]
  omega

variable (site) in
/-- A command in the hands of a session is worth more than in the channel. -/
theorem phaseWork_commanded {verify : String → String → Bool} {parse : String → Option Serde.Json}
    {c c' : Websocket.St} {cmd : IODataCmd} (hp : c.phase = .command cmd)
    (hs : Websocket.step verify parse c (.commanded true) = some c') :
    phaseWork site c'.phase + commandWork site cmd < phaseWork site c.phase := by
  simp only [Websocket.step, hp, if_true] at hs
  rw [hp]
  cases cmd with
  | getAllData handler =>
    cases hs
    simp only [phaseWork]
    omega
  | action ioAction =>
    cases hs
    simp only [Websocket.St.send, phaseWork]
    omega

variable (site) in
theorem channelWork_session {i : Nat} {c : Websocket.St} (c' : Websocket.St) (hi : s.sessions[i]? = some c) :
    channelWork site { s with sessions := s.sessions.set i c' } + phaseWork site c.phase =
      channelWork site s + phaseWork site c'.phase := by
  have hsum := sum_map_set (fun c => phaseWork site c.phase) c' hi
  simp only [channelWork]
  omega

variable (site s) in
theorem channelWork_input (e : Source × IODataCmd) :
    channelWork site { s with inputEvt := s.inputEvt.add e } = channelWork site s + commandWork site e.2 := by
  simp only [channelWork, waiting_add, List.map_append, List.map_cons, List.map_nil, List.sum_append, List.sum_cons,
    List.sum_nil]
  omega

/-! ### The engine -/

theorem recv_work (ht : Traced site s) {command : Source × IODataCmd} {inputEvt : Queue (Source × IODataCmd)}
    {engine : Engine.St} (hq : s.inputEvt.Takes command inputEvt)
    (he : Engine.step site.io s.engine (.recv (some command.2)) = some engine) :
    work site { s with engine := engine, inputEvt := inputEvt } < work site s := by
  refine work_lt ?_ rfl rfl
  cases Engine.Step.of_step he with
  | command _ hp =>
    have hleft := Engine.handleCommand_left site.io hp command.2
    rw [ht.load] at hleft
    have hnow : s.engine.pc.left = 0 := by rw [hp]; rfl
    simp only [channelWork, hq.waiting, List.map_cons, List.sum_cons, commandWork, hnow]
    omega

theorem send_work {command : IODataAction} {engine : Engine.St}
    (he : Engine.step site.io s.engine .sent = some engine) :
    work site { s with engine := engine, outputCmd := s.outputCmd.add (.engine, command) } < work site s := by
  refine work_lt ?_ rfl rfl
  have hleft := Engine.sent_left he
  simp only [channelWork, waiting_add, List.length_append, List.length_singleton]
  omega

theorem hear_work {ioData : Origin × IOData} {feedback : Queue (Origin × IOData)} {engine : Engine.St}
    (hq : s.feedback.Takes ioData feedback)
    (he : Engine.step site.io s.engine (.feedback ioData.2) = some engine) :
    work site { s with engine := engine, feedback := feedback } < work site s := by
  refine work_lt ?_ rfl rfl
  cases Engine.Step.of_step he with
  | feedback _ hp =>
    simp only [channelWork, hq.waiting, List.length_cons]
    omega

theorem lagged_work {engine : Engine.St} (hr : s.running = true)
    (he : Engine.step site.io s.engine .feedbackFails = some engine) :
    work site { s with engine := engine, running := false } < work site s := by
  refine work_lt ?_ rfl rfl
  cases Engine.Step.of_step he with
  | feedbackFails hp =>
    simp only [channelWork, hr, Bool.toNat_true, Engine.Pc.left, Bool.toNat_false]
    omega

/-! ### The controllers -/

/-- An id leads to a controller that there is. -/
theorem channel_lt {id : String} {n : Nat} (h : site.launched.reverseMap.lookup id = some n) : n < site.size := by
  obtain ⟨hinst, hrev⟩ := OutputControllers.launch_spec (makeOutputContextMap site.io) site.enumerates
  obtain ⟨config, hget, _⟩ := (hrev id).1 n h
  have hlt := (List.getElem?_eq_some_iff.1 hget).1
  rw [Site.size, Site.launched, hinst, List.length_map]
  exact hlt

theorem dispatch_work {ioData : Sender × IODataAction} {outputCmd : Queue (Sender × IODataAction)}
    {dispatch : OutputControllers.St} (hq : s.outputCmd.Takes ioData outputCmd)
    (hd : OutputControllers.step site.launched.reverseMap s.dispatch (.recv (some ioData.2)) = some dispatch) :
    work site { s with dispatch := dispatch, outputCmd := outputCmd } < work site s := by
  cases OutputControllers.Step.of_step hd with
  | dispatched _ channel hp hc =>
    refine work_lt ?_ rfl rfl
    simp only [channelWork, hq.waiting, List.length_cons, dispatchWork, hp]
    omega
  | unknown _ hp hc =>
    refine work_lt ?_ rfl rfl
    simp only [channelWork, hq.waiting, List.length_cons]
    omega

theorem dispatched_work (ht : Traced site s) {dispatch : OutputControllers.St}
    (hd : OutputControllers.step site.launched.reverseMap s.dispatch .sent = some dispatch) :
    work site { s with dispatch := dispatch } < work site s := by
  obtain ⟨ld, hran⟩ := ht.dispatch
  cases OutputControllers.Step.of_step hd with
  | sent n ioData hp hroom =>
    have hn := channel_lt (OutputControllers.pending_channel hran.reached hp)
    have hpart := work_part site s { s with dispatch := { s.dispatch with
        pc := .recv, queues := Function.update s.dispatch.queues n (s.dispatch.queues n ++ [ioData]) } } hn
      (by
        intro m hm
        simp only [controllerWork, Function.update_of_ne hm])
    simp only [controllerWork, Function.update_self, List.length_append, List.length_singleton, channelWork,
      dispatchWork, hp] at hpart
    omega

/-- What is left in the outbox after a piece that says at most `k` values. -/
theorem outbox_after {n k : Nat} {m : Wago.Ctl Unit} (st : Wago.St) (h : ControllerTold site s n)
    (ho : (s.controllers n).outbox = []) (hm : Wago.Reports k m)
    (hst : st.txFeedback = (s.controllers n).st.txFeedback) :
    ((s.controllers n).after (m st)).outbox.length ≤ k := by
  obtain ⟨hresult, htold⟩ := after_st (s.controllers n) (m st)
  have hlen : ((s.controllers n).after (m st)).st.txFeedback.length ≤ (s.controllers n).st.txFeedback.length + k := by
    have hwp := hm _ st (Nat.le_of_eq (congrArg List.length hst))
    rw [hresult]
    cases hres : m st with
    | ok a st' =>
      have hle := Eff.wp_ok hwp hres
      exact hle
    | error e st' =>
      have hle := Eff.wp_error hwp hres
      exact hle
  have hle := h.le
  rw [Controller.outbox, List.drop_eq_nil_iff] at ho
  rw [Controller.outbox, List.length_drop, htold]
  omega

variable (site) in
/-- Nothing but the end makes a controller return. -/
theorem statusWork_after (n : Nat) (c : Controller) (res : EStateM.Result Fault Wago.St Unit) :
    statusWork site n (c.after res).status ≤ 1 := by
  unfold Controller.after
  split
  · simp only
    split <;> simp [statusWork]
  · exact Nat.zero_le _

theorem start_work (ht : Traced site s) {n : Nat} {order : List String} (hn : n < site.size)
    (hst : (s.controllers n).status = .starting) (ho : HMap.Enumerates order (site.outputs n)) :
    work site (s.setController n ((s.controllers n).after
      (Wago.startup (site.env n) order (Wago.init (site.world n) (site.outputs n))))) < work site s := by
  have hran := ht.controller n
  have hinit : (s.controllers n).st = Wago.init (site.world n) (site.outputs n) := by
    generalize s.controllers n = c at hran hst ⊢
    cases hran with
    | starting _ => rfl
    | looping => cases hst
    | returned => cases hst
  have hbox : (s.controllers n).outbox = [] := by simp [Controller.outbox, hinit, Wago.init]
  have hout := outbox_after (s.controllers n).st (ht.told n) hbox (Wago.reports_startup (site.env n) order) rfl
  rw [hinit] at hout
  have hcard : order.length = (site.outputs n).keys.card := by
    rw [← List.toFinset_card_of_nodup ho.1]
    congr 1
    ext id
    rw [List.mem_toFinset, ho.2, Finmap.mem_keys]
  have hstatus := statusWork_after site n (s.controllers n)
    (Wago.startup (site.env n) order (Wago.init (site.world n) (site.outputs n)))
  have hpart := work_setController (s := s) (c := (s.controllers n).after
    (Wago.startup (site.env n) order (Wago.init (site.world n) (site.outputs n)))) hn
  have hstarting : statusWork site n .starting = 2 * (site.outputs n).keys.card + 2 := rfl
  rw [hst, hbox, List.length_nil] at hpart
  omega

theorem turn_work (ht : Traced site s) {n : Nat} {ioDataOpt : Option IODataAction} {dispatch : OutputControllers.St}
    (hn : n < site.size) (hst : (s.controllers n).status = .looping) (hbox : (s.controllers n).outbox = [])
    (htake : takeFor site s n (.recv ioDataOpt) = some dispatch) :
    work site ({ s with dispatch := dispatch }.setController n ((s.controllers n).after
      (Wago.iteration (site.env n) (.recv ioDataOpt) (s.controllers n).st))) < work site s := by
  have hstatus := statusWork_after site n (s.controllers n)
    (Wago.iteration (site.env n) (.recv ioDataOpt) (s.controllers n).st)
  have hlooping : statusWork site n .looping = 1 := rfl
  rcases takeFor_cases htake with ⟨rfl, hc⟩ | ⟨ioData, hl, hq, hd⟩
  · cases ioDataOpt with
    | some ioData => cases hc
    | none =>
      -- The channel is closed: the controller says nothing and returns.
      have hpart := work_setController (s := s) (c := (s.controllers n).after
        (Wago.iteration (site.env n) (.recv none) (s.controllers n).st)) hn
      have hreturned : ((s.controllers n).after
          (Wago.iteration (site.env n) (.recv none) (s.controllers n).st)).status = .returned := rfl
      have hout : ((s.controllers n).after
          (Wago.iteration (site.env n) (.recv none) (s.controllers n).st)).outbox = [] := hbox
      have hzero : statusWork site n .returned = 0 := rfl
      rw [hst, hbox, hreturned, hout, List.length_nil] at hpart
      show work site (s.setController n _) < _
      omega
  · cases hl
    have hout := outbox_after (s.controllers n).st (ht.told n) hbox
      (Wago.reports_recv (site.env n) (some ioData)) rfl
    have htaken : work site { s with dispatch := dispatch } + 3 = work site s := by
      cases OutputControllers.Step.of_step hd with
      | take _ ioData' rest hq' =>
        have hqueue : s.dispatch.queues n = ioData' :: Function.update s.dispatch.queues n rest n := by
          rw [Function.update_self, hq']
        exact work_take hn rfl hqueue fun m hm => Function.update_of_ne hm _ _
    have hpart := work_setController (s := { s with dispatch := dispatch })
      (c := (s.controllers n).after (Wago.iteration (site.env n) (.recv (some ioData)) (s.controllers n).st)) hn
    simp only [hst, hbox, List.length_nil] at hpart
    omega

theorem tell_work {n : Nat} {ioData : IOData} {rest : List IOData} (hn : n < site.size)
    (hbox : (s.controllers n).outbox = ioData :: rest) :
    work site ((s.setController n { s.controllers n with told := (s.controllers n).told + 1 }).broadcast
      (.controller n) ioData) < work site s := by
  generalize hc : s.controllers n = c at hbox ⊢
  have hrest : ({ c with told := c.told + 1 } : Controller).outbox = rest := by
    rw [Controller.outbox] at hbox ⊢
    rw [← List.drop_drop, hbox]
    rfl
  have hpart := work_setController (s := s) (c := { c with told := c.told + 1 }) hn
  simp only [hc, hbox, hrest, List.length_cons] at hpart
  rw [work_broadcast]
  show work site (s.setController n { c with told := c.told + 1 }) + 1 < work site s
  omega

/-! ### All of them -/

/-- **Each of the server's own steps leaves less to do.** -/
theorem own_step_work (ht : Traced site s) (hl : Own l) (hs : Server.step site s l = some s') :
    work site s' < work site s := by
  obtain ⟨hrun, hstep⟩ := Step.of_step hs
  cases hstep with
  | garbled | datagram | accept | mqtt | unreachable | quit => exact hl.elim
  | submit ioAction rest hp hroom =>
    refine work_lt ?_ rfl rfl
    have hchannel := channelWork_input site { s with pending := rest }
      (.datagram, .action ioAction)
    simp only [channelWork, hp, List.map_cons, List.sum_cons] at hchannel ⊢
    omega
  | alone i c c' l hi hal hc =>
    cases l with
    | answer data =>
      obtain ⟨handler, answer, hp, rfl, _⟩ := hal
      refine work_lt ?_ rfl rfl
      have hsession := channelWork_session site c' hi
      have hphase : phaseWork site c.phase = 1 := by rw [hp]; rfl
      have hphase' : phaseWork site c'.phase = 0 := by
        simp only [Websocket.step, hp] at hc
        cases hc
        rfl
      omega
    | broadcast | next | feedback | sent | commanded => first | exact hl.elim | exact hal.elim
  | commanded i c c' cmd hi hp hroom hc =>
    refine work_lt ?_ rfl rfl
    have hsession := channelWork_session site c' hi
    have hinput := channelWork_input site { s with sessions := s.sessions.set i c' }
      (.session i, addressed i cmd)
    have hphase := phaseWork_commanded site hp hc
    rw [commandWork_addressed] at hinput
    rw [hinput]
    omega
  | recv command inputEvt engine hq he => exact recv_work ht hq he
  | send command actions rules engine hp hroom he => exact send_work he
  | hear ioData feedback engine hq hlag he => exact hear_work hq he
  | lagged engine hlag he => exact lagged_work hrun he
  | dispatch ioData outputCmd dispatch hout hq hd => exact dispatch_work hq hd
  | dispatched dispatch hout hd => exact dispatched_work ht hd
  | start n order hout hn hst ho => exact start_work ht hn hst ho
  | turn n lw dispatch hout hn hst hbox hen htake =>
    cases lw with
    | recv ioDataOpt => exact turn_work ht hn hst hbox htake
    | expiry | keepAlive => exact hl.elim
  | tell n ioData rest hout hn hbox => exact tell_work hn hbox
  | returns n hout hn hst hbox =>
    refine work_lt ?_ rfl rfl
    simp only [channelWork, hrun, Bool.toNat_true, Bool.toNat_false]
    omega

end

end Server

end Calaos
