import Calaos.EndToEnd
/-!
# From rest to rest

What the server does to the house is simple to say if one looks at it only when it is at rest: the commands that have
come in for the inputs set them one after the other, and make the rules fire whose conditions then hold; all the
actions of these rules are carried out, and so is every command for an output. `behaviour` says so, with neither
channels nor tasks in it. As soon as the state of every output that the rules act on has been reported once, every
run from one state of rest to another one does just that (`rest_to_rest`), whatever happens meanwhile and in whatever
order; the commands of the MQTT client come in between. Every output is to have its own id, so that a command has one
controller to go to.
-/
namespace Calaos

/-! ## The behaviour of the rules engine -/

namespace Engine

open Runs

/-- What a command makes the outputs do, if all of them are known. -/
def wanted (inputMap : InputSharedContextMap) : IODataCmd → List IODataAction
  | .action ioAction =>
    match inputMap.lookup ioAction.id with
    | some _ => ((firedBy inputMap (.action ioAction)).flatMap (·.actions)).map (·.command)
    | none => [ioAction]
  | .getAllData _ => []

/-- What the commands make them do, one after the other. -/
def behaviour : InputSharedContextMap → List IODataCmd → List IODataAction
  | _, [] => []
  | inputMap, command :: commands => wanted inputMap command ++ behaviour (writeCommand inputMap command) commands

theorem behaviour_append (inputMap : InputSharedContextMap) (cs cs' : List IODataCmd) :
    behaviour inputMap (cs ++ cs') = behaviour inputMap cs ++ behaviour (cs.foldl writeCommand inputMap) cs' := by
  induction cs generalizing inputMap with
  | nil => rfl
  | cons c cs ih => simp [behaviour, ih]

/-- Every output that the rules act on has a value. -/
def AllKnown (rulesConfig : Rules.RulesConfig) (outputMap : OutputSharedContextMap) : Prop :=
  ∀ rule ∈ rulesConfig.rules, ∀ action ∈ rule.actions, known outputMap action = true

instance (rulesConfig : Rules.RulesConfig) (outputMap : OutputSharedContextMap) :
    Decidable (AllKnown rulesConfig outputMap) :=
  inferInstanceAs (Decidable (∀ rule ∈ rulesConfig.rules, ∀ action ∈ rule.actions, known outputMap action = true))

/-- What is still to be sent. -/
def remaining (s : St) : List IODataAction :=
  match s.pc with
  | .send command actions rules => command :: (owed s.inputMap actions rules).map (·.command)
  | _ => []

/-- The loops pass over nothing that is known. -/
theorem remaining_resume {s : St} {actions : List Rules.Action} {rules : List Rules.Rule}
    (hk : ∀ action ∈ owed s.inputMap actions rules, known s.outputMap action = true) :
    remaining (resume s actions rules) = (owed s.inputMap actions rules).map (·.command) := by
  unfold resume
  cases hn : nextSend s.inputMap s.outputMap actions rules with
  | none =>
    have hnone := nextSend_none hn
    cases ho : owed s.inputMap actions rules with
    | nil => rfl
    | cons action rest =>
      have hmem : action ∈ owed s.inputMap actions rules := by simp [ho]
      have := hnone action hmem
      rw [hk action hmem] at this
      cases this
  | some next =>
    obtain ⟨command, rest, rest'⟩ := next
    obtain ⟨skipped, action, he, rfl, _, hs⟩ := nextSend_some hn
    cases skipped with
    | nil =>
      rw [he]
      rfl
    | cons passed skipped =>
      have := hs passed (by simp)
      rw [hk passed (by rw [he]; simp)] at this
      cases this

/-- From a state where everything is known, up to an error. -/
structure Behaves (rulesConfig : Rules.RulesConfig) (u : St) (past : List Label) (t : St) : Prop where
  inputs : t.inputMap = (commands past).foldl writeCommand u.inputMap
  known : AllKnown rulesConfig t.outputMap
  /-- Whatever it is in the middle of comes from the rules. -/
  owed : ∀ command actions rules, t.pc = .send command actions rules →
    ∀ action ∈ Engine.owed t.inputMap actions rules, ∃ rule ∈ rulesConfig.rules, action ∈ rule.actions
  account : t.pc ≠ .stopped → t.sent ++ remaining t = u.sent ++ behaviour u.inputMap (commands past)

section
variable {io : IoConfig} {rulesConfig : Rules.RulesConfig} {u s t : St} {l : Label} {past : List Label}

theorem AllKnown.step (h : AllKnown rulesConfig s.outputMap) (hs : step io s l = some t) :
    AllKnown rulesConfig t.outputMap :=
  fun rule hr action ha => known_step hs (h rule hr action ha)

/-- What is left of the loops is left of what was owed before. -/
theorem owed_resume {command : IODataAction} {actions actions' : List Rules.Action} {rules rules' : List Rules.Rule}
    (h : (resume s actions rules).pc = .send command actions' rules') :
    ∀ action ∈ Engine.owed s.inputMap actions' rules', action ∈ Engine.owed s.inputMap actions rules := by
  unfold resume at h
  cases hn : nextSend s.inputMap s.outputMap actions rules with
  | none =>
    rw [hn] at h
    cases h
  | some next =>
    obtain ⟨command', rest, rest'⟩ := next
    rw [hn] at h
    obtain ⟨rfl, rfl, rfl⟩ : command' = command ∧ rest = actions' ∧ rest' = rules' := by simpa using h
    obtain ⟨skipped, action, he, _⟩ := nextSend_some hn
    intro a ha
    rw [he]
    simp [ha]

/-- No rule is entered but those of the configuration. -/
theorem entered_mem (h : run (Engine.step io) (init io rulesConfig) past = some s) {id : String}
    {context : InputSharedContext} (hl : s.inputMap.lookup id = some context) {rule : Rules.Rule}
    (hr : rule ∈ context.rules) : rule ∈ rulesConfig.rules := by
  have hsame := run_rules h id
  rw [hl, Option.map_some] at hsame
  obtain ⟨context', hl', hrules⟩ := Option.map_eq_some_iff.1 hsame.symm
  rw [← hrules] at hr
  exact (mem_rules_make hl' hr).1

/-- The loops go on with actions of the rules. -/
theorem Behaves.resume {v : St} {actions : List Rules.Action} {rules : List Rules.Rule}
    (hin : v.inputMap = (commands past).foldl writeCommand u.inputMap) (hk : AllKnown rulesConfig v.outputMap)
    (ho : ∀ action ∈ Engine.owed v.inputMap actions rules, ∃ rule ∈ rulesConfig.rules, action ∈ rule.actions)
    (ha : v.sent ++ (Engine.owed v.inputMap actions rules).map (·.command) =
      u.sent ++ behaviour u.inputMap (commands past)) :
    Behaves rulesConfig u past (Engine.resume v actions rules) := by
  obtain ⟨hinputs, houtputs, hsent, _⟩ := resume_frame v actions rules
  refine ⟨hinputs.trans hin, by rw [houtputs]; exact hk, ?_, fun _ => ?_⟩
  · intro command actions' rules' hp action hmem
    rw [hinputs] at hmem
    exact ho action (owed_resume hp action hmem)
  · have hknown : ∀ action ∈ Engine.owed v.inputMap actions rules, Engine.known v.outputMap action = true := by
      intro action hmem
      obtain ⟨rule, hrule, haction⟩ := ho action hmem
      exact hk rule hrule action haction
    rw [hsent, remaining_resume hknown, ha]

/-- A command is received. -/
theorem Behaves.command {before : List Label} (hu : run (Engine.step io) (init io rulesConfig) before = some s)
    (h : Behaves rulesConfig u past s) (hp : s.pc = .recv) (command : IODataCmd) :
    Behaves rulesConfig u (past ++ [.recv (some command)]) (handleCommand io s command) := by
  have haccount := h.account (by simp [hp])
  rw [show remaining s = [] by simp [remaining, hp], List.append_nil] at haccount
  have hcommands : commands (past ++ [.recv (some command)]) = commands past ++ [command] := commands_append _ _
  have hinputs : (commands (past ++ [.recv (some command)])).foldl writeCommand u.inputMap =
      writeCommand s.inputMap command := by
    rw [hcommands, List.foldl_append, ← h.inputs]
    rfl
  have hbehaviour : behaviour u.inputMap (commands (past ++ [.recv (some command)])) =
      behaviour u.inputMap (commands past) ++ wanted s.inputMap command := by
    rw [hcommands, behaviour_append, ← h.inputs]
    simp [behaviour]
  obtain ⟨hin, hout, _⟩ := handleCommand_maps io s command
  have hknown : AllKnown rulesConfig (handleCommand io s command).outputMap := by
    rw [hout]
    exact h.known
  -- If it goes on waiting, nothing is wanted.
  have hwaits : (handleCommand io s command).pc = .recv → (handleCommand io s command).sent = s.sent →
      wanted s.inputMap command = [] →
      Behaves rulesConfig u (past ++ [.recv (some command)]) (handleCommand io s command) := by
    intro hpc hsent hw
    refine ⟨hin.trans hinputs.symm, hknown, ?_, fun _ => ?_⟩
    · rw [hpc]
      exact nofun
    · rw [hbehaviour, hw, hsent, haccount, remaining, hpc, List.append_nil]
      simp
  cases command with
  | getAllData handler => exact hwaits hp rfl rfl
  | action ioAction =>
    obtain ⟨id, action⟩ := ioAction
    cases hl : s.inputMap.lookup id with
    | none =>
      have he : handleCommand io s (.action ⟨id, action⟩) = { s with pc := .send ⟨id, action⟩ [] [] } := by
        simp [handleCommand, hl]
      have hw : wanted s.inputMap (.action ⟨id, action⟩) = [⟨id, action⟩] := by simp [wanted, hl]
      refine ⟨hin.trans hinputs.symm, hknown, ?_, fun _ => ?_⟩
      · rw [he]
        rintro command actions rules ⟨⟩
        simp [Engine.owed]
      · rw [hbehaviour, hw, he, ← List.append_assoc, ← haccount]
        simp [remaining, Engine.owed]
    | some context =>
      cases action with
      | toggle | stop =>
        refine hwaits ?_ ?_ (by simp [wanted, hl, firedBy]) <;> simp [handleCommand, hl, hp]
      | setValue value =>
        have hw : wanted s.inputMap (.action ⟨id, .setValue value⟩) =
            (Engine.owed (writeInput s.inputMap id value) [] context.rules).map (·.command) := by
          simp [wanted, hl, firedBy, Engine.owed]
        simp only [handleCommand, hl]
        refine Behaves.resume (v := { s with inputMap := writeInput s.inputMap id value }) hinputs.symm h.known ?_ ?_
        · intro action ha
          rw [Engine.owed, List.nil_append, List.mem_flatMap] at ha
          obtain ⟨rule, hrule, ha⟩ := ha
          exact ⟨rule, entered_mem hu hl (List.mem_of_mem_filter hrule), ha⟩
        · rw [hbehaviour, hw, ← List.append_assoc, ← haccount]

theorem Behaves.step {before : List Label} (hu : run (Engine.step io) (init io rulesConfig) before = some s)
    (h : Behaves rulesConfig u past s) (hs : Engine.step io s l = some t) : Behaves rulesConfig u (past ++ [l]) t := by
  have hknown := h.known.step hs
  cases Step.of_step hs with
  | ended hp =>
    have hcommands : commands (past ++ [.recv none]) = commands past := by simp [commands]
    refine ⟨by rw [hcommands]; exact h.inputs, hknown, fun _ _ _ he => (by cases he), fun _ => ?_⟩
    rw [hcommands, ← h.account (by simp [hp])]
    simp [remaining, hp]
  | sendFails command actions rules hp =>
    have hcommands : commands (past ++ [.sendFails]) = commands past := by simp [commands]
    exact ⟨by rw [hcommands]; exact h.inputs, hknown, fun _ _ _ he => (by cases he), fun hpc => absurd rfl hpc⟩
  | feedbackFails hp =>
    have hcommands : commands (past ++ [.feedbackFails]) = commands past := by simp [commands]
    exact ⟨by rw [hcommands]; exact h.inputs, hknown, fun _ _ _ he => (by cases he), fun hpc => absurd rfl hpc⟩
  | feedback d hp =>
    have hcommands : commands (past ++ [.feedback d]) = commands past := by simp [commands]
    exact ⟨by rw [hcommands]; exact h.inputs, hknown, h.owed, fun hpc => by rw [hcommands]; exact h.account hpc⟩
  | sent command actions rules hp =>
    have hcommands : commands (past ++ [.sent]) = commands past := by simp [commands]
    have haccount := h.account (by simp [hp])
    refine Behaves.resume (v := { s with sent := s.sent ++ [command] }) (by rw [hcommands]; exact h.inputs) h.known
      (h.owed command actions rules hp) ?_
    rw [hcommands, ← haccount]
    simp [remaining, hp]
  | command command hp => exact h.command hu hp command

/-- **The engine does what the commands ask for**, once every output it acts on is known. -/
theorem behaves_run {before : List Label} (hu : run (Engine.step io) (init io rulesConfig) before = some u)
    (hk : AllKnown rulesConfig u.outputMap) (hp : u.pc = .recv) (h : run (Engine.step io) u past = some t) :
    Behaves rulesConfig u past t := by
  have key := run_traced (Engine.step io) (I := fun past t =>
    run (Engine.step io) (init io rulesConfig) (before ++ past) = some t ∧ Behaves rulesConfig u past t) ?_ ?_ h
  · exact key.2
  · rintro past s l t ⟨hr, hb⟩ hs
    exact ⟨by rw [← List.append_assoc]; exact (run_snoc _).2 ⟨s, hr, hs⟩, hb.step hr hs⟩
  · refine ⟨by rw [List.append_nil]; exact hu, rfl, hk, ?_, fun _ => ?_⟩
    · rw [hp]
      exact nofun
    · simp [remaining, hp, commands, behaviour]

end

end Engine

/-! ## The server -/

namespace Server

open Runs Queue
open OutputControllers (addressee)

section
variable {Ip : Type} [DecidableEq Ip] (site : Site Ip) {Addr : Type}

/-- Everything that has happened since the server was at rest in `s₀`: the commands that came for the inputs, and
those that were made for the outputs. -/
structure RestToRest (past ls : List (Label Addr)) (s₀ s : St) (came : List (Source × IODataCmd))
    (made : List (Sender × IODataAction)) : Prop where
  inputLog : s.inputEvt.log = s₀.inputEvt.log ++ came
  outputLog : s.outputCmd.log = s₀.outputCmd.log ++ made
  /-- All that the new datagrams say has come, -/
  datagrams : (MainServer.commands (letOut site (past ++ ls))).map .action =
    (MainServer.commands (letOut site past)).map .action ++ tagged .datagram came
  /-- the inputs have been set one after the other, -/
  inputs : s.engine.inputMap = (came.map (·.2)).foldl Engine.writeCommand s₀.engine.inputMap
  /-- the rules have done all they are to do then, -/
  behaviour : tagged .engine made = Engine.behaviour s₀.engine.inputMap (came.map (·.2))
  published : tagged .mqtt made = Server.published site.nodeId ls
  /-- and every controller has executed what is for it. -/
  executed : ∀ n config, site.configs[n]? = some config → Server.executed n ls =
    (made.map (·.2)).filter fun ioData => decide (addressee site.parse site.io ioData.id = some config)
  known : Engine.AllKnown site.rulesConfig s.engine.outputMap

end

section
variable {Ip : Type} [DecidableEq Ip] {site : Site Ip} {Addr : Type} {s s' s₀ : St} {l : Label Addr}
  {past ls : List (Label Addr)}

/-- What is in a channel stays in its log. -/
theorem logs_grow (hs : Step site s l s') :
    s.inputEvt.log <+: s'.inputEvt.log ∧ s.outputCmd.log <+: s'.outputCmd.log := by
  have hsame : ∀ t : St, t.inputEvt.log = s.inputEvt.log → t.outputCmd.log = s.outputCmd.log →
      s.inputEvt.log <+: t.inputEvt.log ∧ s.outputCmd.log <+: t.outputCmd.log :=
    fun t hi ho => ⟨by rw [hi], by rw [ho]⟩
  cases hs with
  | datagram datagram request hp hr lastChange outs hh =>
    exact broadcasts_keep (P := fun t => s.inputEvt.log <+: t.inputEvt.log ∧ s.outputCmd.log <+: t.outputCmd.log)
      (fun _ _ ht => ht) (MainServer.broadcasts outs) _ (hsame _ rfl rfl)
  | submit | commanded => exact ⟨List.prefix_append _ _, List.prefix_rfl⟩
  | mqtt | send => exact ⟨List.prefix_rfl, List.prefix_append _ _⟩
  | recv command inputEvt engine ht he => exact hsame _ ht.log rfl
  | dispatch ioData outputCmd dispatch hout ht hd => exact hsame _ rfl ht.log
  | garbled | accept | alone | hear | lagged | dispatched | start | unreachable | turn | tell | returns | quit =>
    exact hsame _ rfl rfl

/-- The engine goes on from where it is, and the logs from what is in them. -/
theorem run_goes_on {le : List Engine.Label} (h₀ : EngineRan site s₀ le) (h : run (Server.step site) s₀ ls = some s) :
    (∃ more, EngineRan site s (le ++ more)) ∧ s₀.inputEvt.log <+: s.inputEvt.log ∧
      s₀.outputCmd.log <+: s.outputCmd.log := by
  refine run_invariant (Server.step site) (I := fun t => (∃ more, EngineRan site t (le ++ more)) ∧
    s₀.inputEvt.log <+: t.inputEvt.log ∧ s₀.outputCmd.log <+: t.outputCmd.log) ?_
    ⟨h₀.same, List.prefix_rfl, List.prefix_rfl⟩ h
  rintro t l t' ⟨⟨more, hran⟩, hin, hout⟩ hs
  have hstep := (Step.of_step hs).2
  obtain ⟨more', hran'⟩ := hran.step hstep
  obtain ⟨hin', hout'⟩ := logs_grow hstep
  exact ⟨⟨more ++ more', by rw [← List.append_assoc]; exact hran'⟩, hin.trans hin', hout.trans hout'⟩

/-- **From rest to rest** the server does what the commands ask for, one after the other. -/
theorem rest_to_rest (hn : (site.io.outputs.map (·.id)).Nodup) (h₀ : run (Server.step site) (init site) past = some s₀)
    (hq₀ : Quiet site s₀) (hk : Engine.AllKnown site.rulesConfig s₀.engine.outputMap)
    (h : run (Server.step site) s₀ ls = some s) (hq : Quiet site s) :
    ∃ came made, RestToRest site past ls s₀ s came made := by
  have hall : run (Server.step site) (init site) (past ++ ls) = some s := by
    rw [run_append, h₀]
    exact h
  obtain ⟨le, hran₀⟩ := (run_parts h₀).engine
  obtain ⟨⟨more, hran⟩, ⟨came, hcame⟩, made, hmade⟩ := run_goes_on hran₀ h
  have hmore : run (Engine.step site.io) s₀.engine more = some s.engine := by
    have hreached := hran.reached
    rw [run_append, hran₀.reached] at hreached
    exact hreached
  have hcommands : Engine.commands more = came.map (·.2) := by
    have hlog := hran.commands
    rw [taken_of_quiet hq.inputEvt, ← hcame, List.map_append, ← taken_of_quiet hq₀.inputEvt, ← hran₀.commands] at hlog
    exact List.append_cancel_left (List.filterMap_append.symm.trans hlog)
  have hbehaves := Engine.behaves_run hran₀.reached hk hq₀.engine hmore
  have hinputs := hbehaves.inputs
  have haccount := hbehaves.account (by rw [hq.engine]; exact nofun)
  rw [hcommands] at hinputs haccount
  rw [Engine.remaining, hq.engine, List.append_nil, hran.sent, hran₀.sent, ← hmade, tagged_append] at haccount
  refine ⟨came, made, hcame.symm, hmade.symm, ?_, hinputs, List.append_cancel_left haccount, ?_, ?_, hbehaves.known⟩
  · have hnew := (run_submitted hall).commands
    rw [hq.pending, ← hcame, tagged_append] at hnew
    rw [hnew, (run_submitted h₀).commands, hq₀.pending]
    simp
  · have hlog := run_published hall
    rw [← hmade, tagged_append, ← run_published h₀] at hlog
    exact (List.append_cancel_left (List.filterMap_append.symm.trans hlog)).symm
  · intro n config hget
    have hlog := (executed_commanded hn hall hget).2 hq
    rw [commanded, ← hmade, List.map_append, List.filter_append, ← commanded,
      ← (executed_commanded hn h₀ hget).2 hq₀] at hlog
    exact List.append_cancel_left (List.flatMap_append.symm.trans hlog)

end

/-- The controllers start. -/
def starts : List (Label Nat) :=
  [.start 0 ["blinds", "hall"], .tell 0, .tell 0, .hear, .hear, .start 1 ["porch"], .tell 1, .hear]

/-- Somebody rings, and the lamp is toggled. -/
def bell : List (Label Nat) := [.datagram (MainServer.textAt "WAGO INT 7 1" 0), .submit, .recv, .send] ++ lights

/-- Once the lamp of the porch is known, it is toggled whenever somebody rings. -/
theorem rest_to_rest_porch : ∃ s₀ s : St, run (step (porchSite false)) (init (porchSite false)) starts = some s₀ ∧
    run (step (porchSite false)) s₀ bell = some s ∧
    ∃ came made, RestToRest (porchSite false) starts bell s₀ s came made := by
  have hrun : ((run (step (porchSite false)) (init (porchSite false)) starts).bind fun s₀ =>
      (run (step (porchSite false)) s₀ bell).map fun s => (atRest (porchSite false) s₀, atRest (porchSite false) s,
        decide (Engine.AllKnown (porchSite false).rulesConfig s₀.engine.outputMap))) = some (true, true, true) := by
    decide +kernel
  obtain ⟨s₀, hs₀, hrest⟩ := Option.bind_eq_some_iff.1 hrun
  obtain ⟨s, hs, hrest⟩ := Option.map_eq_some_iff.1 hrest
  obtain ⟨hrest₀, hrest, hknown⟩ : _ ∧ _ ∧ _ := by simpa only [Prod.mk.injEq] using hrest
  have hall : run (step (porchSite false)) (init (porchSite false)) (starts ++ bell) = some s := by
    rw [run_append, hs₀]
    exact hs
  exact ⟨s₀, s, hs₀, hs, rest_to_rest (by decide) hs₀ ((run_parts hs₀).quiet hrest₀) (of_decide_eq_true hknown) hs
    ((run_parts hall).quiet hrest)⟩

end Server

end Calaos
