import Calaos.Snapshot
/-!
# What decides which rules fire

`handle_input` gives way in the middle of its loops, and feedback may come in then. A run is told as a
timeline of what the loops do and what feedback does (`timeline`), each entry where it happens. The rules that
fire follow from the commands alone (`firing`), since conditions read inputs only and only this task writes
them. Feedback decides about the actions: one is sent exactly if its output has had feedback before.
-/
namespace Calaos.Engine

open Runs History

/-- One thing that happens: a rule's conditions are met, its action is sent or passed over, a command is
passed on to the outputs, or feedback is written. -/
inductive Entry where
  | fired (rule : Rules.Rule)
  | sent (action : Rules.Action)
  | skipped (action : Rules.Action)
  | forwarded (ioAction : IODataAction)
  | heard (ioData : IOData)

/-! ## The timeline

The same loops as `nextAction`, `nextRule` and `nextSend`, with everything they do on the way. -/

/-- The loop over `rule.actions`, up to the next `send(..).await`. -/
def actionEntries (outputMap : OutputSharedContextMap) : List Rules.Action → List Entry
  | [] => []
  | action :: actions =>
    if (getRefValue action.output.id outputMap).isSome then [.sent action]
    else .skipped action :: actionEntries outputMap actions

/-- The loop over `context.rules`. -/
def ruleEntries (inputMap : InputSharedContextMap) (outputMap : OutputSharedContextMap) : List Rules.Rule → List Entry
  | [] => []
  | rule :: rules =>
    if shouldExec rule.conditions inputMap then
      .fired rule :: actionEntries outputMap rule.actions ++
        match nextAction outputMap rule.actions with
        | some _ => []
        | none => ruleEntries inputMap outputMap rules
    else ruleEntries inputMap outputMap rules

/-- Both loops, taken up in the middle of a rule. -/
def sendEntries (inputMap : InputSharedContextMap) (outputMap : OutputSharedContextMap)
    (actions : List Rules.Action) (rules : List Rules.Rule) : List Entry :=
  actionEntries outputMap actions ++
    match nextAction outputMap actions with
    | some _ => []
    | none => ruleEntries inputMap outputMap rules

/-- What one command does up to the first wait. -/
def commandEntries (s : St) : IODataCmd → List Entry
  | .action ioAction =>
    match s.inputMap.lookup ioAction.id with
    | some context =>
      match ioAction.action with
      | .setValue value => sendEntries (writeInput s.inputMap ioAction.id value) s.outputMap [] context.rules
      | _ => []
    | none => [.forwarded ioAction]
  | .getAllData _ => []

/-- What one step does. -/
def entries (s : St) : Label → List Entry
  | .recv (some command) => commandEntries s command
  | .sent =>
    match s.pc with
    | .send _ actions rules => sendEntries s.inputMap s.outputMap actions rules
    | _ => []
  | .feedback ioData => [.heard ioData]
  | _ => []

/-- Everything a run does. -/
def timeline (io : IoConfig) : St → List Label → List Entry
  | _, [] => []
  | s, l :: ls =>
    entries s l ++
      match step io s l with
      | some t => timeline io t ls
      | none => []

/-- The rules that fired. -/
def fired (log : List Entry) : List Rules.Rule :=
  log.filterMap fun
    | .fired rule => some rule
    | _ => none

/-- The actions whose turn came. -/
def executed (log : List Entry) : List Rules.Action :=
  log.filterMap fun
    | .sent action => some action
    | .skipped action => some action
    | _ => none

/-- The commands for the outputs. -/
def sends (log : List Entry) : List IODataAction :=
  log.filterMap fun
    | .sent action => some action.command
    | .forwarded ioAction => some ioAction
    | _ => none

/-- The feedback. -/
def heard (log : List Entry) : List IOData :=
  log.filterMap fun
    | .heard ioData => some ioData
    | _ => none

theorem heard_append (log es : List Entry) : heard (log ++ es) = heard log ++ heard es := List.filterMap_append

/-- The output is configured and has had feedback. -/
def Fed (io : IoConfig) (log : List Entry) (id : String) : Prop :=
  (∃ output ∈ io.outputs, output.id = id) ∧ ∃ d ∈ heard log, d.id = id

/-- An action is sent if its output is fed, and passed over if not. -/
def Judged (io : IoConfig) (before : List Entry) : Entry → Prop
  | .sent action => Fed io before action.output.id
  | .skipped action => ¬ Fed io before action.output.id
  | _ => True

/-! ## What the commands decide -/

/-- The commands `handle_input` has received. -/
def commands (past : List Label) : List IODataCmd :=
  past.filterMap fun
    | .recv (some command) => some command
    | _ => none

theorem commands_append (past : List Label) (l : Label) : commands (past ++ [l]) = commands past ++ commands [l] :=
  List.filterMap_append

/-- The rules that a command makes fire. -/
def firedBy (inputMap : InputSharedContextMap) : IODataCmd → List Rules.Rule
  | .action ⟨id, .setValue value⟩ =>
    match inputMap.lookup id with
    | some context => context.rules.filter fun rule => shouldExec rule.conditions (writeInput inputMap id value)
    | none => []
  | _ => []

/-- The rules that the commands make fire, one command after the other. -/
def firing : InputSharedContextMap → List IODataCmd → List Rules.Rule
  | _, [] => []
  | inputMap, command :: commands => firedBy inputMap command ++ firing (writeCommand inputMap command) commands

section
variable {io : IoConfig} {rulesConfig : Rules.RulesConfig} {s t : St} {l : Label} {past : List Label}
  {inputMap : InputSharedContextMap} {outputMap : OutputSharedContextMap}

theorem firing_append (inputMap : InputSharedContextMap) (cs cs' : List IODataCmd) :
    firing inputMap (cs ++ cs') = firing inputMap cs ++ firing (cs.foldl writeCommand inputMap) cs' := by
  induction cs generalizing inputMap with
  | nil => rfl
  | cons c cs ih => simp [firing, ih]

theorem timeline_append {ls ls' : List Label} (h : run (step io) s ls = some t) :
    timeline io s (ls ++ ls') = timeline io s ls ++ timeline io t ls' := by
  induction ls generalizing s with
  | nil =>
    cases h
    rfl
  | cons l ls ih =>
    obtain ⟨u, hu, hr⟩ := (run_cons _).1 h
    simp only [List.cons_append, timeline, hu, List.append_assoc]
    rw [ih hr]

theorem timeline_singleton (h : step io s l = some t) : timeline io s [l] = entries s l := by
  simp [timeline, h]

/-! ## What the loops do up to the next wait -/

/-- The entries do no more and no less than go from `actions` and `rules` to what is left in `next`. -/
structure Covers (inputMap : InputSharedContextMap) (outputMap : OutputSharedContextMap) (log : List Entry)
    (actions : List Rules.Action) (rules : List Rules.Rule)
    (next : Option (IODataAction × List Rules.Action × List Rules.Rule)) : Prop where
  fires : fired log ++ (next.elim [] (·.2.2)).filter (fun rule => shouldExec rule.conditions inputMap) =
    rules.filter fun rule => shouldExec rule.conditions inputMap
  executes : executed log ++ next.elim [] (·.2.1) = actions ++ (fired log).flatMap (·.actions)
  sends : sends log = (next.map (·.1)).toList
  silent : heard log = []
  decides : (∀ action, .sent action ∈ log → known outputMap action = true) ∧
    ∀ action, .skipped action ∈ log → known outputMap action = false

/-- An action that is passed over. -/
theorem Covers.skip {log : List Entry} {action : Rules.Action} {actions : List Rules.Action} {rules : List Rules.Rule}
    {next : Option (IODataAction × List Rules.Action × List Rules.Rule)}
    (h : Covers inputMap outputMap log actions rules next) (hk : known outputMap action = false) :
    Covers inputMap outputMap (.skipped action :: log) (action :: actions) rules next where
  fires := h.fires
  executes := congrArg (action :: ·) h.executes
  sends := h.sends
  silent := h.silent
  decides := by
    refine ⟨fun a ha => h.decides.1 a (by simpa using ha), ?_⟩
    intro a ha
    rcases List.mem_cons.1 ha with ha | ha
    · cases ha
      exact hk
    · exact h.decides.2 a ha

variable (inputMap outputMap) in
/-- The loop over the actions covers what it goes through, with whatever covers the rest if it gets to the
end. -/
theorem covers_actions (actions : List Rules.Action) (rules : List Rules.Rule) :
    match nextAction outputMap actions with
    | some (command, rest) =>
      Covers inputMap outputMap (actionEntries outputMap actions) actions rules (some (command, rest, rules))
    | none => ∀ log next, Covers inputMap outputMap log [] rules next →
      Covers inputMap outputMap (actionEntries outputMap actions ++ log) actions rules next := by
  induction actions with
  | nil => exact fun log next h => h
  | cons action actions ih =>
    rw [nextAction, actionEntries]
    by_cases hk : (getRefValue action.output.id outputMap).isSome = true
    · rw [if_pos hk, if_pos hk]
      exact ⟨by simp [fired], by simp [executed, fired], by simp [sends], rfl, by simp [known, hk], by simp⟩
    · have hunknown : known outputMap action = false := by simpa [known] using hk
      rw [if_neg hk, if_neg hk]
      cases hn : nextAction outputMap actions with
      | some next =>
        rw [hn] at ih
        exact Covers.skip ih hunknown
      | none =>
        rw [hn] at ih
        exact fun log next h => (ih log next h).skip hunknown

/-- A rule that fires. -/
theorem Covers.fire {log : List Entry} {rule : Rules.Rule} {rules : List Rules.Rule}
    {next : Option (IODataAction × List Rules.Action × List Rules.Rule)}
    (h : Covers inputMap outputMap log rule.actions rules next) (hx : shouldExec rule.conditions inputMap = true) :
    Covers inputMap outputMap (.fired rule :: log) [] (rule :: rules) next where
  fires := by
    rw [List.filter_cons, if_pos hx, ← h.fires]
    rfl
  executes := h.executes
  sends := h.sends
  silent := h.silent
  decides := ⟨fun a ha => h.decides.1 a (by simpa using ha), fun a ha => h.decides.2 a (by simpa using ha)⟩

theorem covers_rules (rules : List Rules.Rule) :
    Covers inputMap outputMap (ruleEntries inputMap outputMap rules) [] rules (nextRule inputMap outputMap rules) := by
  induction rules with
  | nil => exact ⟨rfl, rfl, rfl, rfl, by simp [ruleEntries], by simp [ruleEntries]⟩
  | cons rule rules ih =>
    rw [ruleEntries, nextRule]
    by_cases hx : shouldExec rule.conditions inputMap = true
    · rw [if_pos hx, if_pos hx]
      have hactions := covers_actions inputMap outputMap rule.actions rules
      cases hn : nextAction outputMap rule.actions with
      | some next =>
        rw [hn] at hactions
        simp only [List.append_nil]
        exact Covers.fire hactions hx
      | none =>
        rw [hn] at hactions
        simp only [List.cons_append]
        exact Covers.fire (hactions _ _ ih) hx
    · rw [if_neg hx, if_neg hx]
      exact { ih with fires := by rw [ih.fires, List.filter_cons, if_neg hx] }

variable (inputMap outputMap) in
theorem covers_send (actions : List Rules.Action) (rules : List Rules.Rule) :
    Covers inputMap outputMap (sendEntries inputMap outputMap actions rules) actions rules
      (nextSend inputMap outputMap actions rules) := by
  rw [sendEntries, nextSend]
  have hactions := covers_actions inputMap outputMap actions rules
  cases hn : nextAction outputMap actions with
  | some next =>
    rw [hn] at hactions
    simp only [List.append_nil]
    exact hactions
  | none =>
    rw [hn] at hactions
    exact hactions _ _ (covers_rules rules)

/-! ## Runs -/

/-- What `handle_input` has before it where it waits: the command it is sending, the actions left of the rule,
and the rules left. An error takes all of it away. -/
def Pc.Waits (pending : List IODataAction) (actions : List Rules.Action) (rules : List Rules.Rule) : Pc → Prop
  | .send command actions' rules' => pending = [command] ∧ actions = actions' ∧ rules = rules'
  | .stopped => True
  | _ => pending = [] ∧ actions = [] ∧ rules = []

/-- The log of a state tells which rules fired for the commands, which of their actions were executed, and
what was sent, up to what is left. -/
def Accounts (due : List Rules.Rule) (log : List Entry) (s : St) : Prop :=
  ∃ pending actions rules, s.pc.Waits pending actions rules ∧
    fired log ++ rules.filter (fun rule => shouldExec rule.conditions s.inputMap) = due ∧
    executed log ++ actions = (fired log).flatMap (·.actions) ∧ sends log = s.sent ++ pending

/-- The loops account for what they do. -/
theorem accounts_resume {u : St} {log : List Entry} {due : List Rules.Rule} {actions : List Rules.Action}
    {rules : List Rules.Rule}
    (hf : fired log ++ rules.filter (fun rule => shouldExec rule.conditions u.inputMap) = due)
    (he : executed log ++ actions = (fired log).flatMap (·.actions)) (hs : sends log = u.sent) :
    Accounts due (log ++ sendEntries u.inputMap u.outputMap actions rules) (resume u actions rules) := by
  have hc := covers_send u.inputMap u.outputMap actions rules
  have hfired : ∀ es, fired (log ++ es) = fired log ++ fired es := fun es => List.filterMap_append
  have hexecuted : ∀ es, executed (log ++ es) = executed log ++ executed es := fun es => List.filterMap_append
  have hsends : ∀ es, sends (log ++ es) = sends log ++ sends es := fun es => List.filterMap_append
  generalize sendEntries u.inputMap u.outputMap actions rules = es at hc
  -- The same sum, whatever is left.
  have hdone : ∀ next, nextSend u.inputMap u.outputMap actions rules = next →
      fired (log ++ es) ++ (next.elim [] (·.2.2)).filter (fun rule => shouldExec rule.conditions u.inputMap) = due ∧
      executed (log ++ es) ++ next.elim [] (·.2.1) = (fired (log ++ es)).flatMap (·.actions) ∧
      sends (log ++ es) = u.sent ++ (next.map (·.1)).toList := by
    rintro next rfl
    rw [hfired, hexecuted, hsends, List.append_assoc, List.append_assoc, hc.fires, hc.executes, hc.sends, hs, hf,
      List.flatMap_append, ← he, List.append_assoc]
    exact ⟨rfl, rfl, rfl⟩
  unfold resume
  split
  · rename_i command actions' rules' hn
    obtain ⟨hf', he', hs'⟩ := hdone _ hn
    exact ⟨[command], actions', rules', ⟨rfl, rfl, rfl⟩, hf', he', hs'⟩
  · rename_i hn
    obtain ⟨hf', he', hs'⟩ := hdone _ hn
    exact ⟨[], [], [], ⟨rfl, rfl, rfl⟩, hf', he', hs'⟩

/-- A command makes fire what `firedBy` says, and is accounted for. -/
theorem accounts_command {log : List Entry} {due : List Rules.Rule} (hp : s.pc = .recv) (h : Accounts due log s)
    (command : IODataCmd) :
    Accounts (due ++ firedBy s.inputMap command) (log ++ commandEntries s command) (handleCommand io s command) := by
  obtain ⟨pending, actions, rules, hw, hf, he, hs⟩ := h
  rw [hp] at hw
  obtain ⟨rfl, rfl, rfl⟩ := hw
  rw [List.filter_nil, List.append_nil] at hf
  rw [List.append_nil] at hs
  have hnothing : firedBy s.inputMap command = [] → commandEntries s command = [] →
      handleCommand io s command = s ∨ (∃ answers, handleCommand io s command = { s with answers := answers }) →
      Accounts (due ++ firedBy s.inputMap command) (log ++ commandEntries s command) (handleCommand io s command) := by
    intro hfb hce hh
    rw [hfb, hce, List.append_nil, List.append_nil]
    rcases hh with hh | ⟨answers, hh⟩
    · rw [hh]
      exact ⟨[], [], [], by rw [hp]; exact ⟨rfl, rfl, rfl⟩, by simpa using hf, he, by simpa using hs⟩
    · rw [hh]
      exact ⟨[], [], [], by simp only [hp]; exact ⟨rfl, rfl, rfl⟩, by simpa using hf, he, by simpa using hs⟩
  cases command with
  | getAllData handler => exact hnothing rfl rfl (.inr ⟨_, rfl⟩)
  | action ioAction =>
    obtain ⟨id, action⟩ := ioAction
    cases hl : s.inputMap.lookup id with
    | none =>
      have hfb : firedBy s.inputMap (.action ⟨id, action⟩) = [] := by cases action <;> simp [firedBy, hl]
      rw [hfb, List.append_nil]
      simp only [handleCommand, commandEntries, hl]
      refine ⟨[⟨id, action⟩], [], [], ⟨rfl, rfl, rfl⟩, ?_, ?_, ?_⟩
      · simpa [fired] using hf
      · simpa [fired, executed] using he
      · simpa [sends] using hs
    | some context =>
      cases action with
      | toggle => exact hnothing rfl (by simp [commandEntries, hl]) (.inl (by simp [handleCommand, hl]))
      | stop => exact hnothing rfl (by simp [commandEntries, hl]) (.inl (by simp [handleCommand, hl]))
      | setValue value =>
        simp only [handleCommand, commandEntries, firedBy, hl]
        exact accounts_resume (u := { s with inputMap := writeInput s.inputMap id value }) (by rw [hf]) he hs

/-- The inputs after the commands. -/
def inputsAfter (io : IoConfig) (rulesConfig : Rules.RulesConfig) (cs : List IODataCmd) : InputSharedContextMap :=
  cs.foldl writeCommand (makeInputContextMap io rulesConfig)

/-- The rules that the commands make fire from the start. -/
def due (io : IoConfig) (rulesConfig : Rules.RulesConfig) (cs : List IODataCmd) : List Rules.Rule :=
  firing (makeInputContextMap io rulesConfig) cs

theorem due_append (cs : List IODataCmd) (command : IODataCmd) :
    due io rulesConfig (cs ++ [command]) =
      due io rulesConfig cs ++ firedBy (inputsAfter io rulesConfig cs) command := by
  rw [due, firing_append]
  simp [firing, due, inputsAfter]

/-- The invariant of a run and its timeline. -/
structure Follows (io : IoConfig) (rulesConfig : Rules.RulesConfig) (past : List Label) (s : St) : Prop where
  reached : run (step io) (init io rulesConfig) past = some s
  inputs : s.inputMap = inputsAfter io rulesConfig (commands past)
  heard : heard (timeline io (init io rulesConfig) past) = feedbacks past
  accounts : Accounts (due io rulesConfig (commands past)) (timeline io (init io rulesConfig) past) s
  judged : Explained (Judged io) (timeline io (init io rulesConfig) past)

/-- An output has a value exactly when it is fed. -/
theorem Follows.known_iff (h : Follows io rulesConfig past s) (action : Rules.Action) :
    known s.outputMap action = true ↔ Fed io (timeline io (init io rulesConfig) past) action.output.id := by
  have hconfigured : (∃ output ∈ io.outputs, output.id = action.output.id) ↔
      ((makeOutputContextMap io).lookup action.output.id).isSome = true := by
    rw [Finmap.lookup_isSome]
    constructor
    · rintro ⟨output, ho, hid⟩
      rw [← hid]
      exact (complete_make io rulesConfig).2 output ho
    · intro hmem
      exact mem_makeOutputContextMap.1 hmem
  unfold known getRefValue Fed
  rw [Snapshot.run_outputMap h.reached, Snapshot.lookup_outputsAfter, h.heard, hconfigured]
  cases (makeOutputContextMap io).lookup action.output.id with
  | none => simp
  | some context =>
    simp only [Option.map_some, Option.bind_some, Option.isSome_some, true_and]
    exact Snapshot.lastValue_isSome

/-- A step other than feedback looks at the outputs as they are. -/
theorem entries_quiet (hl : ∀ d, l ≠ .feedback d) : Engine.heard (entries s l) = [] ∧
    (∀ action, .sent action ∈ entries s l → known s.outputMap action = true) ∧
    ∀ action, .skipped action ∈ entries s l → known s.outputMap action = false := by
  have hnone : Engine.heard [] = [] ∧ (∀ action, Entry.sent action ∈ [] → known s.outputMap action = true) ∧
      ∀ action, Entry.skipped action ∈ [] → known s.outputMap action = false := by simp [Engine.heard]
  have hsend : ∀ (inputMap : InputSharedContextMap) actions rules,
      Engine.heard (sendEntries inputMap s.outputMap actions rules) = [] ∧
      (∀ action, .sent action ∈ sendEntries inputMap s.outputMap actions rules → known s.outputMap action = true) ∧
      ∀ action, .skipped action ∈ sendEntries inputMap s.outputMap actions rules → known s.outputMap action = false := by
    intro inputMap actions rules
    have hc := covers_send inputMap s.outputMap actions rules
    exact ⟨hc.silent, hc.decides⟩
  cases l with
  | feedback d => exact absurd rfl (hl d)
  | sendFails => exact hnone
  | feedbackFails => exact hnone
  | sent =>
    simp only [entries]
    split
    · exact hsend _ _ _
    · exact hnone
  | recv command =>
    cases command with
    | none => exact hnone
    | some command =>
      cases command with
      | getAllData handler => exact hnone
      | action ioAction =>
        simp only [entries, commandEntries]
        split
        · split
          · exact hsend _ _ _
          · exact hnone
        · simp [Engine.heard]

/-- What a step does is accounted for. -/
theorem accounts_step {log : List Entry} {cs : List IODataCmd} (hs : step io s l = some t)
    (h : Accounts (due io rulesConfig cs) log s) (hin : s.inputMap = inputsAfter io rulesConfig cs) :
    Accounts (due io rulesConfig (cs ++ commands [l])) (log ++ entries s l) t := by
  have hsame : ∀ (u : St), u.inputMap = s.inputMap → u.sent = s.sent →
      (∀ pending actions rules, s.pc.Waits pending actions rules → u.pc.Waits pending actions rules) →
      Accounts (due io rulesConfig cs) log u := by
    intro u hi hsent hwait
    obtain ⟨pending, actions, rules, hw, hf, he, hse⟩ := h
    exact ⟨pending, actions, rules, hwait _ _ _ hw, by rw [hi]; exact hf, he, by rw [hsent]; exact hse⟩
  cases Step.of_step hs with
  | command command hp =>
    rw [show commands [.recv (some command)] = [command] from rfl, due_append, ← hin]
    exact accounts_command hp h command
  | ended hp =>
    simp only [commands, entries, List.filterMap_cons, List.filterMap_nil, List.append_nil]
    refine hsame _ rfl rfl ?_
    rw [hp]
    exact fun _ _ _ hw => hw
  | sent command actions rules hp =>
    obtain ⟨pending, actions', rules', hw, hf, he, hse⟩ := h
    rw [hp] at hw
    obtain ⟨rfl, rfl, rfl⟩ := hw
    simp only [commands, entries, hp, List.filterMap_cons, List.filterMap_nil, List.append_nil]
    exact accounts_resume (u := { s with sent := s.sent ++ [command] }) hf he hse
  | sendFails command actions rules hp =>
    simp only [commands, entries, List.filterMap_cons, List.filterMap_nil, List.append_nil]
    exact hsame _ rfl rfl fun _ _ _ _ => trivial
  | feedbackFails hp =>
    simp only [commands, entries, List.filterMap_cons, List.filterMap_nil, List.append_nil]
    exact hsame _ rfl rfl fun _ _ _ _ => trivial
  | feedback d hp =>
    obtain ⟨pending, actions, rules, hw, hf, he, hse⟩ := h
    refine ⟨pending, actions, rules, hw, ?_, ?_, ?_⟩
    · simpa [commands, entries, fired] using hf
    · simpa [entries, fired, executed] using he
    · simpa [entries, sends] using hse

/-- Only feedback is heard. -/
theorem heard_entries (s : St) (l : Label) : Engine.heard (entries s l) = feedbacks [l] := by
  by_cases hl : ∃ d, l = .feedback d
  · obtain ⟨d, rfl⟩ := hl
    rfl
  · rw [(entries_quiet fun d hd => hl ⟨d, hd⟩).1]
    cases l with
    | feedback d => exact absurd ⟨d, rfl⟩ hl
    | recv | sent | sendFails | feedbackFails => rfl

/-- Each entry of a step is judged by what was heard before the step. -/
theorem Follows.judged_entries (h : Follows io rulesConfig past s) {before after : List Entry} {e : Entry}
    (he : entries s l = before ++ e :: after) :
    Judged io (timeline io (init io rulesConfig) past ++ before) e := by
  have hmem : e ∈ entries s l := by
    rw [he]
    simp
  by_cases hl : ∃ d, l = .feedback d
  · obtain ⟨d, rfl⟩ := hl
    have hheard : e = .heard d := List.mem_singleton.1 hmem
    rw [hheard]
    trivial
  · obtain ⟨hquiet, hsent, hskipped⟩ := entries_quiet (s := s) (l := l) fun d hd => hl ⟨d, hd⟩
    have hbefore : Engine.heard before = [] := by
      rw [he, heard_append] at hquiet
      exact (List.append_eq_nil_iff.1 hquiet).1
    have hfed : ∀ id, Fed io (timeline io (init io rulesConfig) past ++ before) id ↔
        Fed io (timeline io (init io rulesConfig) past) id := by
      intro id
      rw [Fed, heard_append, hbefore, List.append_nil, Fed]
    cases e with
    | sent action =>
      rw [Judged, hfed, ← h.known_iff]
      exact hsent action hmem
    | skipped action =>
      rw [Judged, hfed, ← h.known_iff, hskipped action hmem]
      simp
    | fired rule => trivial
    | forwarded ioAction => trivial
    | heard d => trivial

/-- The entries of one step, and what they leave. -/
theorem Follows.step (h : Follows io rulesConfig past s) (hs : step io s l = some t) :
    Follows io rulesConfig (past ++ [l]) t := by
  have hlog : timeline io (init io rulesConfig) (past ++ [l]) =
      timeline io (init io rulesConfig) past ++ entries s l := by
    rw [timeline_append h.reached, timeline_singleton hs]
  refine ⟨?_, ?_, ?_, ?_, ?_⟩
  · rw [run_append, h.reached, Option.bind_some, run_cons]
    exact ⟨t, hs, rfl⟩
  · rw [(step_maps hs).1, commands_append, inputsAfter, List.foldl_append, h.inputs]
    cases l with
    | recv command => cases command <;> rfl
    | sent | sendFails | feedback | feedbackFails => rfl
  · rw [hlog, heard_append, h.heard, heard_entries]
    exact List.filterMap_append.symm
  · rw [hlog, commands_append]
    exact accounts_step hs h.accounts h.inputs
  · rw [hlog]
    exact h.judged.extend fun before e after he => h.judged_entries he

theorem follows_run (h : run (Engine.step io) (init io rulesConfig) past = some s) : Follows io rulesConfig past s := by
  have hstart : Follows io rulesConfig [] (init io rulesConfig) :=
    ⟨rfl, rfl, rfl, ⟨[], [], [], ⟨rfl, rfl, rfl⟩, rfl, rfl, rfl⟩, Explained.nil⟩
  exact run_traced (Engine.step io) (fun _ _ _ _ hi hs => hi.step hs) hstart h

/-- `handle_input` is between two commands, or has ended after the last. -/
def Pc.Idle : Pc → Prop
  | .recv | .done => True
  | _ => False

/-- What the timeline tells of the actions: the actions of the rules that fired come up in order, each is sent
exactly if its output is fed at that point, and an output that is fed is never passed over again. Between two
commands all of them have come up, and the outputs were sent what the timeline tells. -/
structure Decided (io : IoConfig) (log : List Entry) (s : St) : Prop where
  ordered : executed log <+: (fired log).flatMap (·.actions)
  all : s.pc.Idle → executed log = (fired log).flatMap (·.actions) ∧ s.sent = sends log
  sent : ∀ (i : Nat) action, log[i]? = some (.sent action) → Fed io (log.take i) action.output.id
  skipped : ∀ (i : Nat) action, log[i]? = some (.skipped action) → ¬ Fed io (log.take i) action.output.id
  never : ∀ (i j : Nat) d action, i < j → log[i]? = some (.heard d) → d.id = action.output.id →
    (∃ output ∈ io.outputs, output.id = d.id) → log[j]? ≠ some (.skipped action)

/-- Nothing is left between two commands. -/
theorem Accounts.idle {log : List Entry} {rules : List Rules.Rule} (h : Accounts rules log s) (hp : s.pc.Idle) :
    fired log = rules ∧ executed log = (fired log).flatMap (·.actions) ∧ s.sent = sends log := by
  obtain ⟨pending, actions, left, hw, hf, he, hs⟩ := h
  have hnone : pending = [] ∧ actions = [] ∧ left = [] := by
    cases hpc : s.pc with
    | recv => rwa [hpc] at hw
    | done => rwa [hpc] at hw
    | send command actions rules =>
      rw [hpc] at hp
      exact hp.elim
    | stopped =>
      rw [hpc] at hp
      exact hp.elim
  obtain ⟨rfl, rfl, rfl⟩ := hnone
  exact ⟨by simpa using hf, by simpa using he, by simpa using hs.symm⟩

theorem Accounts.isPrefix {log : List Entry} {rules : List Rules.Rule} (h : Accounts rules log s) :
    fired log <+: rules ∧ executed log <+: (fired log).flatMap (·.actions) := by
  obtain ⟨pending, actions, left, _, hf, he, _⟩ := h
  exact ⟨⟨_, hf⟩, ⟨actions, he⟩⟩

theorem Follows.decided (h : Follows io rulesConfig past s) :
    Decided io (timeline io (init io rulesConfig) past) s where
  ordered := h.accounts.isPrefix.2
  all hp := (h.accounts.idle hp).2
  sent _ _ hi := h.judged.at hi
  skipped _ _ hi := h.judged.at hi
  never := by
    intro i j d action hij hi hid hconfigured hj
    have hno : ¬ Fed io _ action.output.id := h.judged.at hj
    refine hno ⟨by rw [← hid]; exact hconfigured, d, ?_, hid⟩
    have hmem : Entry.heard d ∈ (timeline io (init io rulesConfig) past).take j :=
      List.mem_of_getElem? (i := i) (by rw [List.getElem?_take, if_pos hij]; exact hi)
    exact List.mem_filterMap.2 ⟨_, hmem, rfl⟩

/-- **Rule decisions do not depend on how feedback interleaves**: two runs with the same commands fire the
same rules, and in each the actions of these rules are sent or passed over as the feedback so far says. -/
theorem decisions_independent {ls₁ ls₂ : List Label} {s₁ s₂ : St}
    (h₁ : run (Engine.step io) (init io rulesConfig) ls₁ = some s₁)
    (h₂ : run (Engine.step io) (init io rulesConfig) ls₂ = some s₂) (hc : commands ls₁ = commands ls₂) :
    (s₁.pc.Idle → s₂.pc.Idle →
      fired (timeline io (init io rulesConfig) ls₁) = fired (timeline io (init io rulesConfig) ls₂)) ∧
    (fired (timeline io (init io rulesConfig) ls₁) <+: fired (timeline io (init io rulesConfig) ls₂) ∨
      fired (timeline io (init io rulesConfig) ls₂) <+: fired (timeline io (init io rulesConfig) ls₁)) ∧
    Decided io (timeline io (init io rulesConfig) ls₁) s₁ ∧ Decided io (timeline io (init io rulesConfig) ls₂) s₂ := by
  have hf₁ := follows_run h₁
  have hf₂ := follows_run h₂
  have hacc₁ := hf₁.accounts
  rw [hc] at hacc₁
  refine ⟨?_, ?_, hf₁.decided, hf₂.decided⟩
  · intro hp₁ hp₂
    rw [(hacc₁.idle hp₁).1, (hf₂.accounts.idle hp₂).1]
  · exact List.prefix_or_prefix_of_prefix hacc₁.isPrefix.1 hf₂.accounts.isPrefix.1

end

/-- The dimmer goes to `5`. -/
def dimmerTo5 : Label := .recv (some (.action ⟨"dimmer", .setValue (.int 5)⟩))

/-- The lamp's state comes in before the dimmer is moved, or after it: the rule fires either way. -/
theorem decisions_independent_dimmer : ∃ s₁ s₂,
    run (step hall) (init hall ⟨[dimmerRule false]⟩) [.feedback ⟨"lamp", .bool true⟩, dimmerTo5, .sent] = some s₁ ∧
    run (step hall) (init hall ⟨[dimmerRule false]⟩) [dimmerTo5, .feedback ⟨"lamp", .bool true⟩] = some s₂ ∧
    s₁.sent = [⟨"lamp", .toggle⟩] ∧ s₂.sent = [] ∧
    fired (timeline hall (init hall ⟨[dimmerRule false]⟩) [.feedback ⟨"lamp", .bool true⟩, dimmerTo5, .sent]) =
      fired (timeline hall (init hall ⟨[dimmerRule false]⟩) [dimmerTo5, .feedback ⟨"lamp", .bool true⟩]) := by
  have h₁ : run (step hall) (init hall ⟨[dimmerRule false]⟩) [.feedback ⟨"lamp", .bool true⟩, dimmerTo5, .sent] =
      some (dimmerAt5 false [⟨"lamp", .toggle⟩]) := rfl
  have h₂ : run (step hall) (init hall ⟨[dimmerRule false]⟩) [dimmerTo5, .feedback ⟨"lamp", .bool true⟩] =
      some (dimmerAt5 false []) := rfl
  exact ⟨_, _, h₁, h₂, rfl, rfl, (decisions_independent h₁ h₂ rfl).1 trivial trivial⟩

end Calaos.Engine
