import Calaos.Quiescence
import Calaos.WebsocketSession
/-!
# What the channels of the server deliver

Whatever comes in goes to those it is for, in the order in which it came and once (`delivered`): the commands of the
datagrams to the rules engine, its commands and those of the MQTT client to the controllers of their outputs, the raw
states of the inputs to everyone. On the way it waits in a channel, or in the hands of its sender as long as there is no
room, and in a server at rest nothing waits. The ids of the outputs are to be different: of two outputs with one id, on
two PLCs, only one gets the commands.

With `no_output` nobody takes the commands for the outputs. Then the server stops reading what comes in once their
channel is full (`no_output_fills`).
-/
namespace Calaos

/-! ## The loop of `main_server::run`, taken up in the middle -/

namespace MainServer

variable {Addr : Type} {inputVarMap : HMap UInt32 Input} {ds : List (Datagram Addr)} {lastChange : HMap UInt32 Nat}
  {out : List (Out Addr)}

/-- On these datagrams the loop has let out `out`, and goes on with `lastChange`. -/
def Served (inputVarMap : HMap UInt32 Input) (ds : List (Datagram Addr)) (lastChange : HMap UInt32 Nat)
    (out : List (Out Addr)) : Prop :=
  ∀ rest, run inputVarMap ∅ (ds ++ rest) =
    (out ++ (run inputVarMap lastChange rest).1, (run inputVarMap lastChange rest).2)

theorem Served.letOut (h : Served inputVarMap ds lastChange out) : (run inputVarMap ∅ ds).1 = out := by
  have hnil := h []
  rw [List.append_nil] at hnil
  rw [hnil]
  exact List.append_nil _

theorem Served.snoc (h : Served inputVarMap ds lastChange out) {d : Datagram Addr} {request : Protocol.Request}
    (hr : asyncUdpRead d = some request) {lastChange' : HMap UInt32 Nat} {new : List (Out Addr)}
    (hh : handle inputVarMap lastChange d request = (lastChange', new)) :
    Served inputVarMap (ds ++ [d]) lastChange' (out ++ new) := by
  intro rest
  rw [List.append_assoc, List.singleton_append, h, run, hr]
  simp only [hh, List.append_assoc]

/-- A datagram that is no request. -/
theorem Served.garbled (h : Served inputVarMap ds lastChange out) {d : Datagram Addr} (hr : asyncUdpRead d = none) :
    (run inputVarMap ∅ (ds ++ [d])).1 = out := by
  rw [h, run, hr]
  exact List.append_nil _

end MainServer

namespace Server

open Runs Queue
open OutputControllers (channelCapacity addressee)

/-! ## What comes in, and what is done -/

section
variable {Addr : Type}

/-- The datagrams received. -/
def datagrams (past : List (Label Addr)) : List (MainServer.Datagram Addr) :=
  past.filterMap fun
    | .datagram datagram => some datagram
    | _ => none

/-- The commands published on the MQTT topics of the node. -/
def published (nodeId : String) (past : List (Label Addr)) : List IODataAction :=
  past.filterMap fun
    | .mqtt topic payload => Mqtt.handleCommand nodeId topic payload
    | _ => none

/-- The commands that a controller has executed. -/
def executed (n : Nat) (past : List (Label Addr)) : List IODataAction :=
  past.flatMap fun
    | .turn m l => if n = m then Wago.commands [l] else []
    | _ => []

theorem datagrams_snoc (past : List (Label Addr)) (l : Label Addr) :
    datagrams (past ++ [l]) = datagrams past ++ datagrams [l] := List.filterMap_append

theorem published_snoc (nodeId : String) (past : List (Label Addr)) (l : Label Addr) :
    published nodeId (past ++ [l]) = published nodeId past ++ published nodeId [l] := List.filterMap_append

theorem executed_snoc (n : Nat) (past : List (Label Addr)) (l : Label Addr) :
    executed n (past ++ [l]) = executed n past ++ executed n [l] := List.flatMap_append

end

section
variable {Ip : Type} [DecidableEq Ip] (site : Site Ip) {Addr : Type}

/-- What `main_server::run` has let out. -/
def letOut (past : List (Label Addr)) : List (MainServer.Out Addr) := (MainServer.serve site.io (datagrams past)).1

/-- It is where it would be alone, and all it let out is in the channels, but for what it is sending. -/
structure Submitted (past : List (Label Addr)) (s : St) : Prop where
  served : s.running = true →
    MainServer.Served (MainServer.makeInputVarMap site.io) (datagrams past) s.lastChange (letOut site past)
  commands : (MainServer.commands (letOut site past)).map .action =
    tagged .datagram s.inputEvt.log ++ s.pending.map .action
  raw : MainServer.broadcasts (letOut site past) = tagged .input s.feedback.log

/-- The commands for the outputs of an address, in the order in which they were accepted. -/
def commanded (config : OutputControllers.OutputControllerConfig Ip) (s : St) : List IODataAction :=
  (s.outputCmd.log.map (·.2)).filter fun ioData => decide (addressee site.parse site.io ioData.id = some config)

/-- Everything goes where it belongs, in order and once. -/
structure Delivered (past : List (Label Addr)) (s : St) : Prop where
  /-- What the datagrams say is in the channels, or about to be. -/
  submitted : (MainServer.commands (letOut site past)).map .action =
    tagged .datagram s.inputEvt.log ++ s.pending.map .action
  raw : MainServer.broadcasts (letOut site past) = tagged .input s.feedback.log
  /-- The rules engine has run on what it took, and its commands are mixed with those that were published. -/
  engine : ∃ ls, EngineRan site s ls
  published : Server.published site.nodeId past = tagged .mqtt s.outputCmd.log
  /-- A controller has executed the first of the commands that are for it. -/
  executed : ∀ n config, site.configs[n]? = some config → Server.executed n past <+: commanded site config s
  /-- At rest, everyone has everything. -/
  quiet : Quiet site s → (∀ n config, site.configs[n]? = some config → Server.executed n past = commanded site config s) ∧
    (MainServer.commands (letOut site past)).map .action = tagged .datagram s.inputEvt.log ∧
    s.inputEvt.taken = s.inputEvt.log ∧ s.outputCmd.taken = s.outputCmd.log ∧ s.feedback.taken = s.feedback.log

end

section
variable {Ip : Type} [DecidableEq Ip] {site : Site Ip} {Addr : Type} {s s' : St} {l : Label Addr}
  {past : List (Label Addr)}

/-! ## The datagrams -/

/-- What the broadcasts of one datagram do. -/
theorem broadcasts_frame (ds : List IOData) (t : St) :
    (ds.foldl (fun s ioData => s.broadcast .input ioData) t).feedback.log = t.feedback.log ++ ds.map (Prod.mk .input) ∧
    (ds.foldl (fun s ioData => s.broadcast .input ioData) t).lastChange = t.lastChange ∧
    (ds.foldl (fun s ioData => s.broadcast .input ioData) t).pending = t.pending ∧
    (ds.foldl (fun s ioData => s.broadcast .input ioData) t).inputEvt = t.inputEvt := by
  induction ds generalizing t with
  | nil => simp
  | cons d ds ih =>
    obtain ⟨hlog, hchange, hpending, hinput⟩ := ih (t.broadcast .input d)
    rw [List.foldl_cons]
    exact ⟨by rw [hlog]; simp [St.broadcast], hchange, hpending, hinput⟩

theorem tagged_input (ds : List IOData) : tagged .input (ds.map (Prod.mk Origin.input)) = ds := by
  simp [tagged, List.filter_map, Function.comp_def]

/-- A step that has nothing to do with the datagrams. -/
theorem Submitted.frame (h : Submitted site past s) (hrun : s.running = true) (hd : datagrams [l] = [])
    (hc : s'.lastChange = s.lastChange) (hp : s'.pending = s.pending)
    (hi : tagged .datagram s'.inputEvt.log = tagged .datagram s.inputEvt.log)
    (hf : tagged .input s'.feedback.log = tagged .input s.feedback.log) : Submitted site (past ++ [l]) s' := by
  have hds : datagrams (past ++ [l]) = datagrams past := by rw [datagrams_snoc, hd, List.append_nil]
  have hout : letOut site (past ++ [l]) = letOut site past := by rw [letOut, letOut, hds]
  refine ⟨fun _ => ?_, by rw [hout, h.commands, hi, hp], by rw [hout, h.raw, hf]⟩
  rw [hds, hout, hc]
  exact h.served hrun

theorem Submitted.step (h : Submitted site past s) (hrun : s.running = true) (hs : Step site s l s') :
    Submitted site (past ++ [l]) s' := by
  cases hs with
  | garbled datagram hp hr =>
    have hout : letOut site (past ++ [.datagram datagram]) = letOut site past := by
      rw [letOut, datagrams_snoc]
      exact (h.served hrun).garbled hr
    exact ⟨nofun, by rw [hout]; exact h.commands, by rw [hout]; exact h.raw⟩
  | datagram datagram request hp hr lastChange outs hh =>
    have hserved := (h.served hrun).snoc hr hh
    have hout : letOut site (past ++ [.datagram datagram]) = letOut site past ++ outs := by
      rw [letOut, datagrams_snoc]
      exact MainServer.Served.letOut hserved
    obtain ⟨hlog, hchange, hpending, hinput⟩ := broadcasts_frame (MainServer.broadcasts outs)
      { s with lastChange := lastChange, pending := MainServer.commands outs }
    have hcommands := h.commands
    rw [hp, List.map_nil, List.append_nil] at hcommands
    refine ⟨fun _ => ?_, ?_, ?_⟩
    · rw [hout, hchange, datagrams_snoc]
      exact hserved
    · rw [hout, hpending, hinput, MainServer.commands, List.filterMap_append, List.map_append]
      exact congrArg (· ++ _) hcommands
    · rw [hout, hlog, tagged_append, tagged_input, ← h.raw]
      exact List.filterMap_append
  | submit ioAction rest hp hroom =>
    have hds : datagrams (past ++ [.submit]) = datagrams past := by simp [datagrams]
    have hout : letOut site (past ++ [.submit]) = letOut site past := by rw [letOut, letOut, hds]
    refine ⟨fun _ => ?_, ?_, ?_⟩
    · rw [hds, hout]
      exact h.served hrun
    · rw [hout, h.commands, hp]
      simp [tagged_snoc]
    · rw [hout]
      exact h.raw
  | commanded => exact h.frame hrun rfl rfl rfl (by simp [tagged_snoc]) rfl
  | recv command inputEvt engine ht he => exact h.frame hrun rfl rfl rfl (congrArg _ ht.log) rfl
  | hear ioData feedback engine ht hlag he => exact h.frame hrun rfl rfl rfl rfl (congrArg _ ht.log)
  | tell n ioData rest hout hn ho =>
    exact h.frame hrun rfl rfl rfl rfl (by simp [St.broadcast, St.setController, tagged_snoc])
  | accept | alone | mqtt | send | lagged | dispatch | dispatched | start | unreachable | turn | returns | quit =>
    exact h.frame hrun rfl rfl rfl rfl rfl

theorem run_submitted (h : run (Server.step site) (init site) past = some s) : Submitted site past s := by
  refine run_traced (Server.step site) (I := fun past t => Submitted site past t) ?_ ?_ h
  · intro past t l t' hi hs
    obtain ⟨hrun, hstep⟩ := Step.of_step hs
    exact hi.step hrun hstep
  · exact ⟨fun _ rest => by simp [letOut, datagrams, MainServer.serve, MainServer.run, init], rfl, rfl⟩

/-! ## What is published, and what is executed -/

theorem published_step (hs : Step site s l s') :
    tagged .mqtt s'.outputCmd.log = tagged .mqtt s.outputCmd.log ++ published site.nodeId [l] := by
  cases hs with
  | datagram datagram request hp hr lastChange outs hh =>
    refine broadcasts_keep (P := fun t => tagged .mqtt t.outputCmd.log = tagged .mqtt s.outputCmd.log ++ [])
      (fun _ _ ht => ht) (MainServer.broadcasts outs) _ (List.append_nil _).symm
  | mqtt topic payload ioAction ha hroom => simp [tagged_snoc, published, ha]
  | send => simp [tagged_snoc, published]
  | dispatch ioData outputCmd dispatch hout ht hd => simp [ht.log, published]
  | garbled | submit | accept | alone | commanded | recv | hear | lagged | dispatched | start | unreachable | turn
  | tell | returns | quit => exact (List.append_nil _).symm

theorem run_published (h : run (Server.step site) (init site) past = some s) :
    published site.nodeId past = tagged .mqtt s.outputCmd.log := by
  refine run_traced (Server.step site) (I := fun past t => published site.nodeId past = tagged .mqtt t.outputCmd.log)
    ?_ rfl h
  intro past t l t' hi hs
  rw [published_snoc, hi, published_step (Step.of_step hs).2]

theorem executed_step (n : Nat) (hs : Step site s l s') :
    s'.dispatch.taken n = s.dispatch.taken n ++ executed n [l] := by
  cases hs with
  | datagram datagram request hp hr lastChange outs hh =>
    exact broadcasts_keep (P := fun t => t.dispatch.taken n = s.dispatch.taken n ++ []) (fun _ _ ht => ht)
      (MainServer.broadcasts outs) _ (List.append_nil _).symm
  | dispatch ioData outputCmd dispatch hout ht hd =>
    rw [show executed n [(.dispatch : Label Addr)] = [] from rfl, List.append_nil]
    exact congrFun (OutputControllers.step_taken hd nofun) n
  | dispatched dispatch hout hd =>
    rw [show executed n [(.dispatched : Label Addr)] = [] from rfl, List.append_nil]
    exact congrFun (OutputControllers.step_taken hd nofun) n
  | turn m lw dispatch hout hm hst ho hl ht =>
    rw [show executed n [(.turn m lw : Label Addr)] = if n = m then Wago.commands [lw] else [] from List.append_nil _]
    exact taken_of_takeFor ht n
  | garbled | submit | accept | alone | commanded | mqtt | recv | send | hear | lagged | start | unreachable | tell
  | returns | quit => exact (List.append_nil _).symm

theorem run_executed (h : run (Server.step site) (init site) past = some s) (n : Nat) :
    executed n past = s.dispatch.taken n := by
  refine run_traced (Server.step site) (I := fun past t => executed n past = t.dispatch.taken n) ?_ rfl h
  intro past t l t' hi hs
  rw [executed_snoc, hi, executed_step n (Step.of_step hs).2]

/-! ## All of it -/

theorem taken_of_quiet {α : Type} {q : Queue α} (h : q.waiting = []) : q.taken = q.log := by
  rw [← taken_append_waiting, h, List.append_nil]

/-- The commands for a controller that `handle_rx` has received are the first that were accepted for its address. -/
theorem Traced.received (ht : Traced site s) (hn : (site.io.outputs.map (·.id)).Nodup) {n : Nat}
    {config : OutputControllers.OutputControllerConfig Ip} (hget : site.configs[n]? = some config) :
    s.dispatch.received n = (s.outputCmd.taken.map (·.2)).filter
      fun ioData => decide (addressee site.parse site.io ioData.id = some config) := by
  obtain ⟨ld, hd⟩ := ht.dispatch
  rw [OutputControllers.received_run hd.reached hd.fine, hd.commands]
  refine List.filter_congr fun ioData _ => ?_
  rw [decide_eq_decide]
  exact OutputControllers.lookup_reverseMap_iff (makeOutputContextMap site.io) hn site.enumerates hget

/-- A controller has executed the first of the commands for its address, and at rest all of them. -/
theorem executed_commanded (hn : (site.io.outputs.map (·.id)).Nodup)
    (h : run (Server.step site) (init site) past = some s) {n : Nat}
    {config : OutputControllers.OutputControllerConfig Ip} (hget : site.configs[n]? = some config) :
    executed n past <+: commanded site config s ∧ (Quiet site s → executed n past = commanded site config s) := by
  have hreceived := (run_parts h).received hn hget
  rw [run_executed h]
  refine ⟨?_, fun hq => ?_⟩
  · have hfirst : s.dispatch.taken n <+: s.dispatch.received n := by
      rw [OutputControllers.St.received, List.append_assoc]
      exact List.prefix_append _ _
    rw [hreceived] at hfirst
    refine hfirst.trans ?_
    rw [commanded, ← taken_append_waiting s.outputCmd, List.map_append, List.filter_append]
    exact List.prefix_append _ _
  · rw [OutputControllers.St.received, hq.queues, hq.dispatch] at hreceived
    simp only [OutputControllers.Pc.pending, List.append_nil, taken_of_quiet hq.outputCmd] at hreceived
    exact hreceived

/-- **Everything is delivered once, in order, and to those it is for**, where every output has its own id. -/
theorem delivered (hn : (site.io.outputs.map (·.id)).Nodup)
    (h : run (Server.step site) (init site) past = some s) : Delivered site past s := by
  have hsubmitted := run_submitted h
  refine ⟨hsubmitted.commands, hsubmitted.raw, (run_parts h).engine, run_published h,
    fun n config hget => (executed_commanded hn h hget).1, fun hq => ⟨fun n config hget =>
      (executed_commanded hn h hget).2 hq, ?_, taken_of_quiet hq.inputEvt, taken_of_quiet hq.outputCmd,
      taken_of_quiet hq.feedback⟩⟩
  rw [hsubmitted.commands, hq.pending]
  exact List.append_nil _

end

/-- Somebody has rung, and the lamp of the porch has been toggled by its controller. -/
theorem delivered_porch : ∃ s : St, run (step (porchSite false)) (init (porchSite false)) (rings ++ lights) = some s ∧
    Delivered (porchSite false) (rings ++ lights) s ∧ executed 1 (rings ++ lights) = [⟨"porch", .toggle⟩] := by
  have hrun : (run (step (porchSite false)) (init (porchSite false)) (rings ++ lights)).isSome = true := by
    decide +kernel
  obtain ⟨s, hs⟩ := Option.isSome_iff_exists.1 hrun
  exact ⟨s, hs, delivered (by decide) hs, rfl⟩

/-! ## Without the output controllers -/

section
variable {Ip : Type} [DecidableEq Ip] {site : Site Ip} {Addr : Type} {s s' t : St} {l : Label Addr}
  {past : List (Label Addr)}

/-- Nothing has been taken from the commands for the outputs, and they fit into their channel. -/
structure Kept (s : St) : Prop where
  out : s.outputCmd.out = 0
  fits : s.outputCmd.log.length ≤ channelCapacity

theorem Kept.put (h : Kept s) {e : Sender × IODataAction} (hroom : s.outputCmd.waiting.length < channelCapacity) :
    (s.outputCmd.add e).out = 0 ∧ (s.outputCmd.add e).log.length ≤ channelCapacity := by
  rw [waiting, h.out, List.drop_zero] at hroom
  refine ⟨h.out, ?_⟩
  rw [log_add, List.length_append]
  exact hroom

theorem Kept.step (hout : site.noOutput = true) (h : Kept s) (hs : Step site s l s') : Kept s' := by
  have hon : site.noOutput ≠ false := by rw [hout]; exact nofun
  cases hs with
  | datagram datagram request hp hr lastChange outs hh =>
    exact broadcasts_keep (P := Kept) (fun _ _ ht => ⟨ht.out, ht.fits⟩) (MainServer.broadcasts outs) _ ⟨h.out, h.fits⟩
  | mqtt topic payload ioAction ha hroom => exact ⟨(h.put hroom).1, (h.put hroom).2⟩
  | send command actions rules engine hp hroom he => exact ⟨(h.put hroom).1, (h.put hroom).2⟩
  | dispatch _ _ _ hoff | dispatched _ hoff | start _ _ hoff | unreachable _ hoff | turn _ _ _ hoff
  | tell _ _ _ hoff | returns _ hoff => exact absurd hoff hon
  | garbled | submit | accept | alone | commanded | recv | hear | lagged | quit => exact ⟨h.out, h.fits⟩

theorem run_kept (hout : site.noOutput = true) (h : run (Server.step site) (init site) past = some s) : Kept s :=
  run_invariant (Server.step site) (fun _ _ _ hi hs => hi.step hout (Step.of_step hs).2) ⟨rfl, Nat.zero_le _⟩ h

/-- The rules engine waits for room that never comes, as it did in `t`. -/
structure Jammed (t s : St) : Prop where
  waits : s.running = true → ∃ command actions rules, s.engine.pc = .send command actions rules
  full : channelCapacity ≤ s.outputCmd.waiting.length
  outputCmd : s.outputCmd = t.outputCmd
  taken : s.inputEvt.taken = t.inputEvt.taken
  inputs : s.engine.inputMap = t.engine.inputMap
  answers : s.engine.answers = t.engine.answers

/-- Whoever does not take from the channels leaves it at that. -/
theorem Jammed.frame (h : Jammed t s) (hrun : s.running = true)
    (hw : s'.running = true → s'.engine.pc = s.engine.pc) (ho : s'.outputCmd = s.outputCmd)
    (hi : s'.inputEvt.taken = s.inputEvt.taken) (hin : s'.engine.inputMap = s.engine.inputMap)
    (ha : s'.engine.answers = s.engine.answers) : Jammed t s' where
  waits hr := by rw [hw hr]; exact h.waits hrun
  full := by rw [ho]; exact h.full
  outputCmd := ho.trans h.outputCmd
  taken := hi.trans h.taken
  inputs := hin.trans h.inputs
  answers := ha.trans h.answers

theorem Jammed.step (hout : site.noOutput = true) (h : Jammed t s) (hrun : s.running = true) (hs : Step site s l s') :
    Jammed t s' ∧ published site.nodeId [l] = [] := by
  have hon : site.noOutput ≠ false := by simp [hout]
  obtain ⟨command, actions, rules, hpc⟩ := h.waits hrun
  have hfull := h.full
  cases hs with
  | datagram datagram request hp hr lastChange outs hh =>
    have hkeep := broadcasts_keep (P := fun u => Jammed t u ∧ u.running = true)
      (fun u ioData hu => ⟨hu.1.frame hu.2 (fun _ => rfl) rfl rfl rfl rfl, hu.2⟩) (MainServer.broadcasts outs)
      { s with lastChange := lastChange, pending := MainServer.commands outs }
      ⟨h.frame hrun (fun _ => rfl) rfl rfl rfl rfl, hrun⟩
    exact ⟨hkeep.1, rfl⟩
  | mqtt _ _ _ _ hroom => omega
  | send _ _ _ _ _ hroom => omega
  | recv command inputEvt engine ht he => simp [Engine.step, hpc] at he
  | hear ioData feedback engine ht hlag he =>
    obtain ⟨hin, _, hans⟩ := Engine.step_maps he
    have hpc' : engine.pc = s.engine.pc := by
      cases Engine.Step.of_step he with
      | feedback => rfl
    exact ⟨h.frame hrun (fun _ => hpc') rfl rfl hin (hans.trans (List.append_nil _)), rfl⟩
  | lagged engine hlag he =>
    obtain ⟨hin, _, hans⟩ := Engine.step_maps he
    exact ⟨h.frame hrun (fun hr => by cases hr) rfl rfl hin (hans.trans (List.append_nil _)), rfl⟩
  | dispatch _ _ _ hoff | dispatched _ hoff | start _ _ hoff | unreachable _ hoff | turn _ _ _ hoff
  | tell _ _ _ hoff | returns _ hoff => exact absurd hoff hon
  | submit | commanded => exact ⟨h.frame hrun (fun _ => rfl) rfl (by simp) rfl rfl, rfl⟩
  | garbled | quit => exact ⟨h.frame hrun (fun hr => by cases hr) rfl rfl rfl rfl, rfl⟩
  | accept | alone => exact ⟨h.frame hrun (fun _ => rfl) rfl rfl rfl rfl, rfl⟩

/-- **Without the output controllers the server fills up.** No command for an output is ever executed and at most as
many are accepted as their channel has room for. Once the rules engine waits for more room, it takes no command from
the inputs or the clients and answers no request any more, and nothing is accepted from the MQTT client. -/
theorem no_output_fills (hout : site.noOutput = true) (h : run (Server.step site) (init site) past = some s) :
    (∀ n, executed n past = []) ∧ s.outputCmd.log.length ≤ channelCapacity ∧
    ((∃ command actions rules, s.engine.pc = .send command actions rules) →
      s.outputCmd.log.length = channelCapacity →
      ∀ (ls : List (Label Addr)) (s' : St), run (Server.step site) s ls = some s' →
        s'.inputEvt.taken = s.inputEvt.taken ∧ s'.engine.inputMap = s.engine.inputMap ∧
        s'.engine.answers = s.engine.answers ∧ s'.outputCmd = s.outputCmd ∧ published site.nodeId ls = []) := by
  have hkept := run_kept hout h
  refine ⟨fun n => ?_, hkept.fits, fun hwaits hfull ls s' hr => ?_⟩
  · refine run_traced (Server.step site) (I := fun past _ => executed n past = []) ?_ rfl h
    intro past t l t' hi hs
    rw [executed_snoc, hi]
    cases (Step.of_step hs).2 with
    | turn m lw dispatch hoff =>
      rw [hout] at hoff
      cases hoff
    | _ => rfl
  · have hjammed : Jammed s s := by
      refine ⟨fun _ => hwaits, ?_, rfl, rfl, rfl, rfl⟩
      rw [waiting, hkept.out, List.drop_zero]
      exact Nat.le_of_eq hfull.symm
    have hrun := run_traced (Server.step site)
      (I := fun past u => Jammed s u ∧ published site.nodeId past = []) ?_ ⟨hjammed, rfl⟩ hr
    · obtain ⟨hj, hnone⟩ := hrun
      exact ⟨hj.taken, hj.inputs, hj.answers, hj.outputCmd, hnone⟩
    · rintro past u l u' ⟨hi, hnone⟩ hs
      obtain ⟨hrunning, hstep⟩ := Step.of_step hs
      obtain ⟨hj, hp⟩ := hi.step hout hrunning hstep
      exact ⟨hj, by rw [published_snoc, hnone, hp]; rfl⟩

/-- As long as there is room, what is published is accepted. -/
theorem run_mqtt {topic : String} {payload : ByteArray} {ioAction : IODataAction}
    (ha : Mqtt.handleCommand site.nodeId topic payload = some ioAction) {count : Nat} (hrun : s.running = true)
    (hroom : s.outputCmd.waiting.length + count ≤ channelCapacity) :
    ∃ outputCmd, run (Server.step site) s (List.replicate count (.mqtt topic payload : Label Addr)) =
      some { s with outputCmd := outputCmd } ∧ outputCmd.log.length = s.outputCmd.log.length + count := by
  have hruns := run_replicate (Server.step site) (l := (.mqtt topic payload : Label Addr))
    (I := fun left t => ∃ outputCmd, t = { s with outputCmd := outputCmd } ∧
      outputCmd.waiting.length + left ≤ channelCapacity ∧
      outputCmd.log.length + left = s.outputCmd.log.length + count) ?_ ⟨s.outputCmd, rfl, hroom, rfl⟩
  · obtain ⟨_, hr, outputCmd, rfl, _, hlength⟩ := hruns
    exact ⟨outputCmd, hr, hlength⟩
  · rintro left _ ⟨outputCmd, rfl, hroom, hlength⟩
    have hput : outputCmd.put channelCapacity (.mqtt, ioAction) = some (outputCmd.add (.mqtt, ioAction)) :=
      put_eq_some.2 ⟨by omega, rfl⟩
    refine ⟨{ s with outputCmd := outputCmd.add (.mqtt, ioAction) }, ?_, _, rfl, ?_, ?_⟩
    · simp [Server.step, hrun, mqttStep, ha, hput]
    · rw [waiting_add, List.length_append, List.length_singleton]
      omega
    · rw [log_add, List.length_append, List.length_singleton]
      omega

end

/-- The house without its output controllers, for a client who can also switch on the light of the porch. -/
def darkSite : Site String := { porchSite true with parseJson := Websocket.visitParse }

/-- The rules engine waits to send a command, and it is the last. -/
def lastCommand : Engine.Pc → Option IODataAction
  | .send command [] [] => some command
  | _ => none

theorem lastCommand_eq_some {pc : Engine.Pc} {command : IODataAction} (h : lastCommand pc = some command) :
    pc = .send command [] [] := by
  unfold lastCommand at h
  split at h <;> cases h
  rfl

/-- A client logs in and does that, and the rules engine has the command. -/
def asksForLight : List (Label Nat) :=
  [.accept, .session 0 (.next (some (.text Websocket.aliceText))), .session 0 (.sent true),
    .session 0 (.next (some (.text Websocket.porchText))), .session 0 (.commanded true), .recv]

/-- Home Assistant asks for it too, as often as there is room. -/
def insists : List (Label Nat) := List.replicate channelCapacity (.mqtt "calaos/set/porch" "ON".toUTF8)

/-- The channel is full, and the rules engine waits for ever. -/
theorem no_output_fills_porch : ∃ s : St, run (step darkSite) (init darkSite) (asksForLight ++ insists) = some s ∧
    s.engine.pc = .send ⟨"porch", .setValue (.bool true)⟩ [] [] ∧ s.outputCmd.log.length = channelCapacity ∧
    (∀ n, executed n (asksForLight ++ insists) = []) ∧
    ∀ (ls : List (Label Nat)) (s' : St), run (step darkSite) s ls = some s' →
      s'.inputEvt.taken = s.inputEvt.taken ∧ s'.engine.inputMap = s.engine.inputMap ∧
      s'.engine.answers = s.engine.answers ∧ s'.outputCmd = s.outputCmd ∧ published darkSite.nodeId ls = [] := by
  have hasks : ((run (step darkSite) (init darkSite) asksForLight).map fun s =>
      (s.running, lastCommand s.engine.pc, s.outputCmd.log.length)) =
        some (true, some ⟨"porch", .setValue (.bool true)⟩, 0) := by decide +kernel
  obtain ⟨s, hs, hnow⟩ := Option.map_eq_some_iff.1 hasks
  obtain ⟨hrun, hnow⟩ := Prod.mk.inj hnow
  obtain ⟨hlast, hempty⟩ := Prod.mk.inj hnow
  have hwaits := lastCommand_eq_some hlast
  have hroom : s.outputCmd.waiting.length + channelCapacity ≤ channelCapacity := by
    have hnone : s.outputCmd.log = [] := List.length_eq_zero_iff.1 hempty
    rw [waiting, hnone, List.drop_nil]
    exact Nat.le_of_eq (Nat.zero_add _)
  have hon : Mqtt.handleCommand darkSite.nodeId "calaos/set/porch" "ON".toUTF8 =
      some ⟨"porch", .setValue (.bool true)⟩ := by decide +kernel
  obtain ⟨outputCmd, hfill, hfull⟩ : ∃ outputCmd, run (step darkSite) s insists = some { s with outputCmd := outputCmd } ∧
    outputCmd.log.length = s.outputCmd.log.length + channelCapacity := run_mqtt hon hrun hroom
  rw [hempty, Nat.zero_add] at hfull
  have hall : run (step darkSite) (init darkSite) (asksForLight ++ insists) =
      some { s with outputCmd := outputCmd } := by
    rw [run_append, hs, Option.bind_some, hfill]
  obtain ⟨hnone, _, hjam⟩ := no_output_fills rfl hall
  exact ⟨_, hall, hwaits, hfull, hnone, hjam ⟨_, _, _, hwaits⟩ hfull⟩

end Server

end Calaos
