import Calaos.ServerSessions
/-!
# Who is behind a command

Every command that an output controller executes has a cause outside the server (`executed_caused`): it was published
on the topic of the output, a client who had logged in asked for it, or it is an action of a rule that has a condition
on an input and whose conditions all held when that input was set, by a datagram that carries its variable or by such
a client. `Warranted` is the part of that which the rules engine is answerable for.
-/
namespace Calaos

/-! ## The rules engine -/

/-- A rule is entered under the inputs it has conditions on, and under no others. -/
theorem mem_rules_make {io : IoConfig} {rulesConfig : Rules.RulesConfig} {id : String} {context : InputSharedContext}
    (hl : (makeInputContextMap io rulesConfig).lookup id = some context) {rule : Rules.Rule} (hr : rule ∈ context.rules) :
    rule ∈ rulesConfig.rules ∧ 0 < rule.standardOn id ∧ ∃ input ∈ io.inputs, input.id = id := by
  have hin : ∃ input ∈ io.inputs, input.id = id := by
    have hmem : id ∈ insertInputs io := mem_makeInputContextMap.1 (Finmap.lookup_isSome.1 (by rw [hl]; rfl))
    obtain ⟨context', hl'⟩ := Option.isSome_iff_exists.1 (Finmap.lookup_isSome.2 hmem)
    obtain ⟨hi, he, _⟩ := (lookup_insertInputs io id).1 context' hl'
    exact ⟨_, hi, he⟩
  by_cases hid : id = ""
  · -- Nothing is ever entered under the empty id.
    have hframe := index_frame (fun map => (map.lookup id).map (·.rules)) ?_ io rulesConfig
    · simp only [hl, Option.map_some] at hframe
      cases hl' : (insertInputs io).lookup id with
      | none => simp [hl'] at hframe
      | some context' =>
        obtain ⟨_, _, hnil, _⟩ := (lookup_insertInputs io id).1 context' hl'
        simp only [hl', Option.map_some, Option.some.injEq, hnil] at hframe
        rw [hframe] at hr
        cases hr
    · intro rule map condition
      cases condition with
      | start => rfl
      | standard input =>
        simp only [indexCondition]
        split
        · rfl
        · rename_i hne
          have hother : id ≠ input.id := by
            rintro rfl
            exact hne (by simp [hid])
          rw [HMap.lookup_modify_ne _ _ hother]
  · obtain ⟨context', hl', hrules, _⟩ := lookup_makeInputContextMap io rulesConfig hid hin
    rw [hl] at hl'
    cases hl'
    rw [hrules, indexOf, List.mem_flatMap] at hr
    obtain ⟨rule', hmem, hrep⟩ := hr
    obtain ⟨hpos, rfl⟩ := List.mem_replicate.1 hrep
    exact ⟨hmem, Nat.pos_of_ne_zero hpos, hin⟩

namespace Engine

open Runs

section
variable (io : IoConfig) (rulesConfig : Rules.RulesConfig)

/-- Why a command is sent by the rules engine, after the commands `cs`. -/
inductive Warranted (cs : List IODataCmd) (command : IODataAction) : Prop where
  /-- It was asked for, and is for no input. -/
  | forwarded (hin : .action command ∈ cs) (hno : ∀ input ∈ io.inputs, input.id ≠ command.id)
  /-- It is an action of a rule on an input that was set, and whose conditions held then. -/
  | fired (before after : List IODataCmd) (id : String) (value : IOValue) (rule : Rules.Rule) (action : Rules.Action)
    (hcs : cs = before ++ .action ⟨id, .setValue value⟩ :: after) (hin : ∃ input ∈ io.inputs, input.id = id)
    (hrule : rule ∈ rulesConfig.rules) (hon : 0 < rule.standardOn id)
    (hholds : shouldExec rule.conditions (inputsAfter io rulesConfig (before ++ [.action ⟨id, .setValue value⟩])) = true)
    (ha : action ∈ rule.actions) (hc : action.command = command)

/-- All that was sent is warranted, and all that is left of a command. -/
structure Warrants (cs : List IODataCmd) (s : St) : Prop where
  sent : ∀ d ∈ s.sent, Warranted io rulesConfig cs d
  pending : ∀ d actions rules, s.pc = .send d actions rules → Warranted io rulesConfig cs d ∧
    ∀ action ∈ owed s.inputMap actions rules, Warranted io rulesConfig cs action.command

end

section
variable {io : IoConfig} {rulesConfig : Rules.RulesConfig} {cs : List IODataCmd} {s t : St} {l : Label}
  {past : List Label}

theorem Warranted.append {d : IODataAction} (h : Warranted io rulesConfig cs d) (cs' : List IODataCmd) :
    Warranted io rulesConfig (cs ++ cs') d := by
  cases h with
  | forwarded hin hno => exact .forwarded (List.mem_append_left _ hin) hno
  | fired before after id value rule action hcs hin hrule hon hholds ha hc =>
    exact .fired before (after ++ cs') id value rule action (by rw [hcs]; simp) hin hrule hon hholds ha hc

theorem Warrants.append (h : Warrants io rulesConfig cs s) (cs' : List IODataCmd) :
    Warrants io rulesConfig (cs ++ cs') s where
  sent d hd := (h.sent d hd).append cs'
  pending d actions rules hp :=
    ⟨(h.pending d actions rules hp).1.append cs', fun action ha => ((h.pending d actions rules hp).2 action ha).append cs'⟩

/-- The loops send what is owed, and leave the rest of it. -/
theorem Warrants.resume {actions : List Rules.Action} {rules : List Rules.Rule}
    (hsent : ∀ d ∈ s.sent, Warranted io rulesConfig cs d)
    (howed : ∀ action ∈ owed s.inputMap actions rules, Warranted io rulesConfig cs action.command) :
    Warrants io rulesConfig cs (resume s actions rules) := by
  unfold Engine.resume
  cases hn : nextSend s.inputMap s.outputMap actions rules with
  | none => exact ⟨hsent, nofun⟩
  | some next =>
    obtain ⟨command, rest, rest'⟩ := next
    obtain ⟨skipped, action, he, rfl, _⟩ := nextSend_some hn
    refine ⟨hsent, ?_⟩
    rintro d actions' rules' ⟨⟩
    rw [he] at howed
    exact ⟨howed action (by simp), fun a ha => howed a (by simp [ha])⟩

theorem Warrants.step (h : Warrants io rulesConfig (commands past) s)
    (hr : run (Engine.step io) (init io rulesConfig) past = some s) (hs : Engine.step io s l = some t) :
    Warrants io rulesConfig (commands (past ++ [l])) t := by
  rw [commands_append]
  cases Step.of_step hs with
  | ended hp => exact ⟨fun d hd => (h.sent d hd).append _, nofun⟩
  | sendFails => exact ⟨fun d hd => (h.sent d hd).append _, nofun⟩
  | feedbackFails => exact ⟨fun d hd => (h.sent d hd).append _, nofun⟩
  | feedback d hp =>
    have happend := h.append (commands [.feedback d])
    exact ⟨happend.sent, happend.pending⟩
  | sent command actions rules hp =>
    obtain ⟨hcommand, howed⟩ := h.pending command actions rules hp
    refine .resume (fun d hd => ?_) fun action ha => (howed action ha).append _
    rcases List.mem_append.1 hd with hd | hd
    · exact (h.sent d hd).append _
    · rw [List.mem_singleton.1 hd]
      exact hcommand.append _
  | command command hp =>
    have hsent : ∀ d ∈ s.sent, Warranted io rulesConfig (commands past ++ [command]) d :=
      fun d hd => (h.sent d hd).append _
    rw [show commands [.recv (some command)] = [command] from rfl]
    cases command with
    | getAllData handler => exact ⟨hsent, fun d actions rules hpc => absurd (hp.symm.trans hpc) nofun⟩
    | action ioAction =>
      obtain ⟨id, action⟩ := ioAction
      simp only [handleCommand]
      cases hl : s.inputMap.lookup id with
      | none =>
        refine ⟨hsent, ?_⟩
        rintro d actions rules ⟨⟩
        refine ⟨.forwarded (by simp) ?_, by simp [owed]⟩
        intro input hi hid
        have hmem := (run_complete hr).1 input hi
        rw [hid] at hmem
        rw [← Finmap.lookup_isSome, hl] at hmem
        cases hmem
      | some context =>
        cases action with
        | toggle => exact ⟨hsent, fun d actions rules hpc => absurd (hp.symm.trans hpc) nofun⟩
        | stop => exact ⟨hsent, fun d actions rules hpc => absurd (hp.symm.trans hpc) nofun⟩
        | setValue value =>
          refine Warrants.resume (s := { s with inputMap := writeInput s.inputMap id value }) hsent fun a ha => ?_
          have hinputs := (follows_run hr).inputs
          obtain ⟨context', hl', hrules⟩ : ∃ context', (makeInputContextMap io rulesConfig).lookup id = some context' ∧
              context'.rules = context.rules := by
            have hsame := run_rules hr id
            rw [hl, Option.map_some] at hsame
            obtain ⟨context', hl', hrules⟩ := Option.map_eq_some_iff.1 hsame.symm
            exact ⟨context', hl', hrules⟩
          rw [owed, List.nil_append, List.mem_flatMap] at ha
          obtain ⟨rule, hrule, ha⟩ := ha
          obtain ⟨hmem, hholds⟩ := List.mem_filter.1 hrule
          obtain ⟨hconfig, hon, hin⟩ := mem_rules_make hl' (hrules ▸ hmem)
          refine .fired (commands past) [] id value rule a rfl hin hconfig hon ?_ ha rfl
          rw [inputsAfter, List.foldl_append, ← inputsAfter, ← hinputs]
          exact hholds

theorem warranted_run (h : run (Engine.step io) (init io rulesConfig) past = some s) :
    Warrants io rulesConfig (commands past) s := by
  have key := run_traced (Engine.step io) (I := fun past t => run (Engine.step io) (init io rulesConfig) past = some t ∧
    Warrants io rulesConfig (commands past) t) ?_ ⟨rfl, by simp [init], nofun⟩ h
  · exact key.2
  · rintro past t l t' ⟨hr, hi⟩ hs
    exact ⟨(run_snoc _).2 ⟨t, hr, hs⟩, hi.step hr hs⟩

end

end Engine

/-! ## The datagrams -/

namespace MainServer

variable {Addr : Type} {io : IoConfig}

/-- A datagram that carries the variable of the input. -/
def Carries (datagram : Datagram Addr) (input : Input) : Prop :=
  ∃ data, wagoData datagram = some data ∧ pressVar input = some data.var

/-- What is let out for a datagram of the input: its raw state, or a value. -/
def Tells (input : Input) : Out Addr → Prop
  | .feedback ioData => ∃ b, ioData = ⟨input.id, .bool b⟩
  | .command ioAction => ∃ value, ioAction = ⟨input.id, .setValue value⟩
  | .reply _ => False

/-- For a datagram, nothing is let out but what its input tells, and answers to a discovery. -/
theorem handle_tells {lastChange lastChange' : HMap UInt32 Nat} {d : Datagram Addr} {request : Protocol.Request}
    {outs : List (Out Addr)} (hr : asyncUdpRead d = some request)
    (hh : handle (makeInputVarMap io) lastChange d request = (lastChange', outs)) {out : Out Addr} (hm : out ∈ outs) :
    out = .reply d.addr ∨ ∃ input ∈ io.inputs, Carries d input ∧ Tells input out := by
  cases request with
  | discover =>
    cases hh
    exact .inl (List.mem_singleton.1 hm)
  | wagoInt data =>
    right
    simp only [handle] at hh
    cases hl : (makeInputVarMap io).lookup data.var with
    | none =>
      rw [hl] at hh
      cases hh
      cases hm
    | some input =>
      have hinput := hl
      rw [lookup_inputVarMap] at hinput
      obtain ⟨hin, hvar⟩ := History.mem_of_latest hinput
      have hcarries : Carries d input := ⟨data, by rw [wagoData, hr], of_decide_eq_true hvar⟩
      have hfeedback : Tells input (.feedback ⟨input.id, .bool (toBool data.value)⟩ : Out Addr) := ⟨_, rfl⟩
      have hcommand : ∀ value, Tells input (.command ⟨input.id, .setValue value⟩ : Out Addr) := fun value => ⟨_, rfl⟩
      refine ⟨input, hin, hcarries, ?_⟩
      rw [hl] at hh
      simp only at hh
      split at hh
      · cases hh
        rcases List.mem_cons.1 hm with rfl | hm
        · exact hfeedback
        · rw [List.mem_singleton.1 hm]
          exact hcommand _
      · split at hh
        · cases hh
          rw [List.mem_singleton.1 hm]
          exact hfeedback
        · cases hh
          rcases List.mem_cons.1 hm with rfl | hm
          · exact hfeedback
          · rw [List.mem_singleton.1 hm]
            exact hcommand _
      · cases hh
        rw [List.mem_singleton.1 hm]
        exact hfeedback

theorem run_tells {out : Out Addr} : ∀ (ds : List (Datagram Addr)) (lastChange : HMap UInt32 Nat),
    out ∈ (run (makeInputVarMap io) lastChange ds).1 →
      ∃ d ∈ ds, out = .reply d.addr ∨ ∃ input ∈ io.inputs, Carries d input ∧ Tells input out
  | [], _, hm => by cases hm
  | d :: ds, lastChange, hm => by
    rw [run] at hm
    cases hr : asyncUdpRead d with
    | none =>
      rw [hr] at hm
      cases hm
    | some request =>
      rw [hr] at hm
      rcases List.mem_append.1 hm with hm | hm
      · exact ⟨d, List.mem_cons_self, handle_tells hr rfl hm⟩
      · obtain ⟨d', hd', hrest⟩ := run_tells ds _ hm
        exact ⟨d', List.mem_cons_of_mem _ hd', hrest⟩

/-- A command for an input comes with one of its datagrams, and sets it. -/
theorem mem_commands_serve {ds : List (Datagram Addr)} {ioAction : IODataAction}
    (hm : ioAction ∈ commands (serve io ds).1) :
    ∃ d ∈ ds, ∃ input ∈ io.inputs, Carries d input ∧ ∃ value, ioAction = ⟨input.id, .setValue value⟩ := by
  obtain ⟨out, hout, he⟩ := List.mem_filterMap.1 hm
  obtain ⟨d, hd, rfl | ⟨input, hin, hcarries, htells⟩⟩ := run_tells ds ∅ hout
  · cases he
  · cases out with
    | command ioAction' =>
      cases he
      exact ⟨d, hd, input, hin, hcarries, htells⟩
    | feedback | reply => cases he

/-- Nothing is broadcast but the raw states of inputs. -/
theorem mem_broadcasts_serve {ds : List (Datagram Addr)} {ioData : IOData} (hm : ioData ∈ broadcasts (serve io ds).1) :
    ∃ input ∈ io.inputs, ∃ b, ioData = ⟨input.id, .bool b⟩ := by
  obtain ⟨out, hout, he⟩ := List.mem_filterMap.1 hm
  obtain ⟨d, _, rfl | ⟨input, hin, _, htells⟩⟩ := run_tells ds ∅ hout
  · cases he
  · cases out with
    | feedback ioData' =>
      cases he
      exact ⟨input, hin, htells⟩
    | command | reply => cases he

end MainServer

/-! ## The server -/

namespace Server

open Runs Queue

section
variable {Ip : Type} [DecidableEq Ip] (site : Site Ip) {Addr : Type}

/-- The client of a session has logged in. -/
def Enters (past : List (Label Addr)) (i : Nat) : Prop :=
  ∃ before, before <+: own i past ∧ Websocket.LoggedIn site.verify site.parseJson before

/-- Who may set an input: the datagrams that carry its variable, and clients who have logged in. -/
def MaySet (past : List (Label Addr)) (id : String) : Source → Prop
  | .datagram => ∃ d ∈ datagrams past, ∃ input ∈ site.io.inputs, input.id = id ∧ MainServer.Carries d input
  | .session i => Enters site past i

/-- What is behind a command for an output. -/
inductive Caused (past : List (Label Addr)) (s : St) (command : IODataAction) : Prop where
  /-- It was published. -/
  | published (topic : String) (payload : ByteArray) (hm : .mqtt topic payload ∈ past)
    (ha : Mqtt.handleCommand site.nodeId topic payload = some command)
  /-- A client asked for it. -/
  | asked (i : Nat) (hm : (.session i, .action command) ∈ s.inputEvt.log) (he : Enters site past i)
    (hno : ∀ input ∈ site.io.inputs, input.id ≠ command.id)
  /-- A rule fired when one of its inputs was set. -/
  | fired (before after : List IODataCmd) (source : Source) (id : String) (value : IOValue) (rule : Rules.Rule)
    (action : Rules.Action) (hcs : s.inputEvt.log.map (·.2) = before ++ .action ⟨id, .setValue value⟩ :: after)
    (hsource : (source, .action ⟨id, .setValue value⟩) ∈ s.inputEvt.log) (hset : MaySet site past id source)
    (hrule : rule ∈ site.rulesConfig.rules) (hon : 0 < rule.standardOn id)
    (hholds : Engine.shouldExec rule.conditions
      (Engine.inputsAfter site.io site.rulesConfig (before ++ [.action ⟨id, .setValue value⟩])) = true)
    (ha : action ∈ rule.actions) (hc : action.command = command)

end

section
variable {Ip : Type} [DecidableEq Ip] {site : Site Ip} {Addr : Type} {s : St} {past : List (Label Addr)}

/-- Nobody else puts a command into the channel of the inputs. -/
theorem maySet_of_mem (h : run (Server.step site) (init site) past = some s) {source : Source} {ioAction : IODataAction}
    (hm : (source, .action ioAction) ∈ s.inputEvt.log) :
    MaySet site past ioAction.id source ∧
      (source = .datagram → ∃ input ∈ site.io.inputs, input.id = ioAction.id) := by
  cases source with
  | session i => exact ⟨(run_sessions h).login hm, nofun⟩
  | datagram =>
    have hcommands := (run_submitted h).commands
    have hlog : IODataCmd.action ioAction ∈ (MainServer.commands (letOut site past)).map .action := by
      rw [hcommands]
      exact List.mem_append_left _ (mem_tagged.2 hm)
    obtain ⟨ioAction', hmem, he⟩ := List.mem_map.1 hlog
    cases he
    obtain ⟨d, hd, input, hin, hcarries, value, rfl⟩ := MainServer.mem_commands_serve hmem
    exact ⟨⟨d, hd, input, hin, rfl, hcarries⟩, fun _ => ⟨input, hin, rfl⟩⟩

/-- All that the rules engine or the MQTT client has put into the channel of the outputs has a cause. -/
theorem caused_of_mem (h : run (Server.step site) (init site) past = some s) {sender : Sender} {command : IODataAction}
    (hm : (sender, command) ∈ s.outputCmd.log) : Caused site past s command := by
  have htagged := mem_tagged.2 hm
  cases sender with
  | mqtt =>
    rw [← run_published h] at htagged
    obtain ⟨l, hl, ha⟩ := List.mem_filterMap.1 htagged
    cases l with
    | mqtt topic payload => exact .published topic payload hl ha
    | _ => cases ha
  | engine =>
    obtain ⟨le, hran⟩ := (run_parts h).engine
    rw [← hran.sent] at htagged
    have hwarranted := (Engine.warranted_run hran.reached).sent command htagged
    rw [hran.commands] at hwarranted
    have hlog : ∀ {e : IODataCmd}, e ∈ s.inputEvt.taken.map (·.2) → ∃ source, (source, e) ∈ s.inputEvt.log := by
      intro e he
      obtain ⟨⟨source, e'⟩, hmem, rfl⟩ := List.mem_map.1 he
      exact ⟨source, mem_log_of_taken hmem⟩
    cases hwarranted with
    | forwarded hin hno =>
      obtain ⟨source, hsource⟩ := hlog hin
      obtain ⟨hset, hdatagram⟩ := maySet_of_mem h hsource
      cases source with
      | session i => exact .asked i hsource hset hno
      | datagram =>
        obtain ⟨input, hi, hid⟩ := hdatagram rfl
        exact absurd hid (hno input hi)
    | fired before after id value rule action hcs hin hrule hon hholds ha hc =>
      obtain ⟨source, hsource⟩ := hlog (e := .action ⟨id, .setValue value⟩) (by rw [hcs]; simp)
      refine .fired before (after ++ s.inputEvt.waiting.map (·.2)) source id value rule action ?_ hsource
        (maySet_of_mem h hsource).1 hrule hon hholds ha hc
      rw [← taken_append_waiting s.inputEvt, List.map_append, hcs, List.append_assoc, List.cons_append]

/-- **Nothing happens by itself**: whatever an output controller executes was published, was asked for by a client who
had logged in, or is what a rule does when an input is set by its PLC or by such a client. -/
theorem executed_caused (h : run (Server.step site) (init site) past = some s) {n : Nat} {command : IODataAction}
    (hm : command ∈ executed n past) : Caused site past s command := by
  have ht := run_parts h
  obtain ⟨ld, hd⟩ := ht.dispatch
  have hreceived : command ∈ s.dispatch.received n := by
    rw [OutputControllers.St.received, List.append_assoc, ← run_executed h]
    exact List.mem_append_left _ hm
  rw [OutputControllers.received_run hd.reached hd.fine, hd.commands] at hreceived
  obtain ⟨⟨sender, command'⟩, hmem, rfl⟩ := List.mem_map.1 (List.mem_of_mem_filter hreceived)
  exact caused_of_mem h (mem_log_of_taken hmem)

end

/-- The lamp was toggled because the bell was rung. -/
theorem executed_caused_porch : ∃ s : St, run (step (porchSite false)) (init (porchSite false)) (rings ++ lights) = some s ∧
    Caused (porchSite false) (rings ++ lights) s ⟨"porch", .toggle⟩ := by
  have hrun : (run (step (porchSite false)) (init (porchSite false)) (rings ++ lights)).isSome = true := by
    decide +kernel
  obtain ⟨s, hs⟩ := Option.isSome_iff_exists.1 hrun
  have hm : (⟨"porch", .toggle⟩ : IODataAction) ∈ executed 1 (rings ++ lights) := by decide
  exact ⟨s, hs, executed_caused hs hm⟩

end Server

end Calaos
