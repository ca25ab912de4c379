import Calaos.EngineEffects
import Calaos.TimedFilter
import Mathlib.Algebra.Order.BigOperators.Group.List
import Mathlib.Tactic.IntervalCases
/-!
# What an input event makes the rules engine send

The engine sends the actions of the rules entered under the input, one after the other, each if its
output has a value when its turn comes (`run_owed`). What it should send are the actions of the rules
of the configuration that match, in file order and once each (`FiresOnce`). The two differ by the
index: a rule with several conditions on one input is entered, and fires, that many times
(`Repeats`).
-/
namespace Calaos.Engine

open Runs TimedFilter

/-- The output of the action has a value. -/
def known (outputMap : OutputSharedContextMap) (action : Rules.Action) : Bool :=
  (getRefValue action.output.id outputMap).isSome

/-- The actions that are left when `handle_input` waits in the middle of its loops. -/
def owed (inputMap : InputSharedContextMap) (actions : List Rules.Action) (rules : List Rules.Rule) :
    List Rules.Action :=
  actions ++ (rules.filter fun rule => shouldExec rule.conditions inputMap).flatMap (·.actions)

section
variable {inputMap : InputSharedContextMap} {outputMap : OutputSharedContextMap}

/-! ## The loops -/

theorem owed_cons_of_exec {rule : Rules.Rule} {rules : List Rules.Rule}
    (h : shouldExec rule.conditions inputMap = true) :
    owed inputMap [] (rule :: rules) = rule.actions ++ owed inputMap [] rules := by
  simp [owed, h]

theorem owed_cons_of_not_exec {rule : Rules.Rule} {rules : List Rules.Rule}
    (h : ¬ shouldExec rule.conditions inputMap = true) : owed inputMap [] (rule :: rules) = owed inputMap [] rules := by
  simp [owed, h]

theorem nextAction_some {actions rest : List Rules.Action} {command : IODataAction}
    (h : nextAction outputMap actions = some (command, rest)) :
    ∃ skipped action, actions = skipped ++ action :: rest ∧ action.command = command ∧
      known outputMap action = true ∧ ∀ x ∈ skipped, known outputMap x = false := by
  induction actions with
  | nil => cases h
  | cons action actions ih =>
    rw [nextAction] at h
    split at h
    · rename_i hk
      cases h
      exact ⟨[], action, rfl, rfl, hk, by simp⟩
    · rename_i hk
      obtain ⟨skipped, a, rfl, hc, hka, hs⟩ := ih h
      exact ⟨action :: skipped, a, rfl, hc, hka, by
        simpa [known] using ⟨by simpa [known] using hk, by simpa [known] using hs⟩⟩

theorem nextAction_none {actions : List Rules.Action} (h : nextAction outputMap actions = none) :
    ∀ x ∈ actions, known outputMap x = false := by
  induction actions with
  | nil => simp
  | cons action actions ih =>
    rw [nextAction] at h
    split at h
    · cases h
    · rename_i hk
      simpa [known] using ⟨by simpa [known] using hk, by simpa [known] using ih h⟩

theorem nextRule_some {rules rest : List Rules.Rule} {actions : List Rules.Action} {command : IODataAction}
    (h : nextRule inputMap outputMap rules = some (command, actions, rest)) :
    ∃ skipped action, owed inputMap [] rules = skipped ++ action :: owed inputMap actions rest ∧
      action.command = command ∧ known outputMap action = true ∧ ∀ x ∈ skipped, known outputMap x = false := by
  induction rules with
  | nil => cases h
  | cons rule rules ih =>
    rw [nextRule] at h
    split at h
    · rename_i hx
      split at h
      · rename_i hn
        cases h
        obtain ⟨skipped, action, he, hc, hk, hs⟩ := nextAction_some hn
        exact ⟨skipped, action, by rw [owed_cons_of_exec hx, he]; simp [owed], hc, hk, hs⟩
      · rename_i hn
        obtain ⟨skipped, action, he, hc, hk, hs⟩ := ih h
        refine ⟨rule.actions ++ skipped, action, by rw [owed_cons_of_exec hx, he]; simp, hc, hk, ?_⟩
        intro x hx
        rcases List.mem_append.1 hx with hx | hx
        · exact nextAction_none hn x hx
        · exact hs x hx
    · rename_i hx
      obtain ⟨skipped, action, he, hrest⟩ := ih h
      exact ⟨skipped, action, by rw [owed_cons_of_not_exec hx, he], hrest⟩

theorem nextRule_none {rules : List Rules.Rule} (h : nextRule inputMap outputMap rules = none) :
    ∀ x ∈ owed inputMap [] rules, known outputMap x = false := by
  induction rules with
  | nil => simp [owed]
  | cons rule rules ih =>
    rw [nextRule] at h
    split at h
    · rename_i hx
      split at h
      · cases h
      · rename_i hn
        rw [owed_cons_of_exec hx]
        intro x hx
        rcases List.mem_append.1 hx with hx | hx
        · exact nextAction_none hn x hx
        · exact ih h x hx
    · rename_i hx
      rw [owed_cons_of_not_exec hx]
      exact ih h

/-- The loops pass over actions without a value and stop at the first one with a value. -/
theorem nextSend_some {actions rest : List Rules.Action} {rules rest' : List Rules.Rule}
    {command : IODataAction} (h : nextSend inputMap outputMap actions rules = some (command, rest, rest')) :
    ∃ skipped action, owed inputMap actions rules = skipped ++ action :: owed inputMap rest rest' ∧
      action.command = command ∧ known outputMap action = true ∧ ∀ x ∈ skipped, known outputMap x = false := by
  unfold nextSend at h
  split at h
  · rename_i hn
    cases h
    obtain ⟨skipped, action, rfl, hrest⟩ := nextAction_some hn
    exact ⟨skipped, action, by simp [owed], hrest⟩
  · rename_i hn
    obtain ⟨skipped, action, he, hc, hk, hs⟩ := nextRule_some h
    refine ⟨actions ++ skipped, action, ?_, hc, hk, ?_⟩
    · rw [List.append_assoc, ← he]; simp [owed]
    · intro x hx
      rcases List.mem_append.1 hx with hx | hx
      · exact nextAction_none hn x hx
      · exact hs x hx

theorem nextSend_none {actions : List Rules.Action} {rules : List Rules.Rule}
    (h : nextSend inputMap outputMap actions rules = none) :
    ∀ x ∈ owed inputMap actions rules, known outputMap x = false := by
  unfold nextSend at h
  split at h
  · cases h
  · rename_i hn
    intro x hx
    have hx : x ∈ actions ∨ x ∈ owed inputMap [] rules := by simpa [owed] using hx
    exact hx.elim (nextAction_none hn x) (nextRule_none h x)

end

/-! ## One event -/

/-- A step other than the receipt of the next command. -/
def Label.Within : Label → Prop
  | .sent | .feedback _ => True
  | _ => False

/-- The output maps along a run: the moments at which an action may be looked at. -/
def moments (io : IoConfig) (s : St) (ls : List Label) : List OutputSharedContextMap :=
  (states (step io) s ls).map (·.outputMap)

section
variable {io : IoConfig} {s s' t : St} {ls : List Label}

theorem moments_cons {l : Label} (h : step io s l = some t) (ls : List Label) :
    moments io s (l :: ls) = s.outputMap :: moments io t ls := by
  rw [moments, states_cons _ _ h, List.map_cons, moments]

/-- `handle_input` takes its loops up again, and sends what it sends from its next wait on. -/
theorem resume_owed {u : St} {actions : List Rules.Action} {rules : List Rules.Rule}
    (ht : resume u actions rules = t) (hrecv : t.pc = .recv → s'.sent = t.sent)
    (hsend : ∀ command actions rules, t.pc = .send command actions rules →
      ∃ ys, s'.sent = t.sent ++ command :: ys.map (·.command) ∧
        Kept known (moments io t ls) (owed t.inputMap actions rules) ys) :
    ∃ ys, s'.sent = u.sent ++ ys.map (·.command) ∧
      Kept known (u.outputMap :: moments io t ls) (owed u.inputMap actions rules) ys := by
  unfold resume at ht
  split at ht
  · rename_i command rest rest' hn
    obtain ⟨skipped, action, he, hc, hk, hs⟩ := nextSend_some hn
    cases ht
    obtain ⟨ys, hsent, hkept⟩ := hsend _ _ _ rfl
    refine ⟨action :: ys, by rw [hsent]; simp [hc], ?_⟩
    rw [he]
    exact (Kept.keep hk hkept.wait).drops hs
  · rename_i hn
    cases ht
    exact ⟨[], by rw [hrecv rfl]; simp, .refuse (nextSend_none hn)⟩

/-- What `handle_input` sends from a wait until it waits for the next command: the command it waits
with, then the owed actions that have a value when looked at. -/
theorem run_owed : ∀ {ls : List Label} {t s' : St}, run (step io) t ls = some s' → (∀ l ∈ ls, l.Within) →
    s'.pc = .recv →
    (t.pc = .recv → s'.sent = t.sent) ∧
    ∀ command actions rules, t.pc = .send command actions rules →
      ∃ ys, s'.sent = t.sent ++ command :: ys.map (·.command) ∧
        Kept known (moments io t ls) (owed t.inputMap actions rules) ys
  | [], t, s', hr, _, hp => by
    cases hr
    exact ⟨fun _ => rfl, fun c as rs h => by rw [h] at hp; cases hp⟩
  | l :: ls, t, s', hr, hw, hp => by
    obtain ⟨t₁, ht, hr⟩ := (run_cons _).1 hr
    obtain ⟨ih₁, ih₂⟩ := run_owed hr (fun x hx => hw x (by simp [hx])) hp
    rw [moments_cons ht]
    cases l with
    | recv c => exact False.elim (hw (.recv c) (by simp))
    | sendFails => exact False.elim (hw (.sendFails) (by simp))
    | feedbackFails => exact False.elim (hw (.feedbackFails) (by simp))
    | feedback d =>
      have hpc : t₁.pc = t.pc ∧ t₁.sent = t.sent ∧ t₁.inputMap = t.inputMap := by
        cases Step.of_step ht
        exact ⟨rfl, rfl, rfl⟩
      refine ⟨fun h => by rw [ih₁ (hpc.1.trans h), hpc.2.1], ?_⟩
      intro c as rs h
      obtain ⟨ys, hs, hk⟩ := ih₂ c as rs (hpc.1.trans h)
      exact ⟨ys, by rw [hs, hpc.2.1], by rw [← hpc.2.2]; exact hk.wait⟩
    | sent =>
      cases Step.of_step ht with
      | sent command actions rules hpc =>
        refine ⟨fun h => (by rw [hpc] at h; cases h), ?_⟩
        intro c as rs h
        rw [hpc] at h
        cases h
        obtain ⟨ys, hs, hk⟩ := resume_owed rfl ih₁ ih₂
        exact ⟨ys, by rw [hs]; simp, hk⟩

end

/-! ## Values that are known -/

section
variable {io : IoConfig} {rulesConfig : Rules.RulesConfig} {s s' t : St} {ls : List Label}

/-- An output that has a value keeps one. -/
theorem known_step {l : Label} (h : step io s l = some t) {action : Rules.Action}
    (hk : known s.outputMap action = true) : known t.outputMap action = true := by
  rcases step_outputMap h with he | ⟨d, he⟩
  · rwa [he]
  · rw [he]
    unfold known getRefValue writeOutput at *
    rw [HMap.lookup_modify_eq]
    split
    · rename_i hd
      rw [hd] at hk
      cases hl : s.outputMap.lookup d.id with
      | none => rw [hl] at hk; cases hk
      | some context => rfl
    · exact hk

theorem known_moments : ∀ {ls : List Label} {s s' : St}, run (step io) s ls = some s' →
    ∀ outputMap ∈ moments io s ls, ∀ action,
      (known s.outputMap action = true → known outputMap action = true) ∧
        (known outputMap action = true → known s'.outputMap action = true)
  | [], s, s', hr, outputMap, ho, action => by
    cases hr
    have ho : outputMap = s.outputMap := by simpa [moments, states] using ho
    subst ho
    exact ⟨id, id⟩
  | l :: ls, s, s', hr, outputMap, ho, action => by
    obtain ⟨t, ht, hr⟩ := (run_cons _).1 hr
    rw [moments_cons ht] at ho
    rcases List.mem_cons.1 ho with rfl | ho
    · refine ⟨id, ?_⟩
      intro hk
      have hlast : t.outputMap ∈ moments io t ls := by cases ls <;> simp [moments, states]
      exact (known_moments hr _ hlast action).2 (known_step ht hk)
    · obtain ⟨h₁, h₂⟩ := known_moments hr outputMap ho action
      exact ⟨fun hk => h₁ (known_step ht hk), h₂⟩

theorem last_moment : ∀ {ls : List Label} {s s' : St}, run (step io) s ls = some s' →
    s'.outputMap ∈ moments io s ls
  | [], s, s', hr => by cases hr; simp [moments, states]
  | l :: ls, s, s', hr => by
    obtain ⟨t, ht, hr⟩ := (run_cons _).1 hr
    rw [moments_cons ht]
    exact List.mem_cons_of_mem _ (last_moment hr)

/-! ## Each matching rule once -/

/-- The rules of the configuration that the event is for: with a condition on the input, and all
conditions met. -/
def matching (rulesConfig : Rules.RulesConfig) (id : String) (inputMap : InputSharedContextMap) :
    List Rules.Rule :=
  rulesConfig.rules.filter fun rule => decide (0 < rule.standardOn id) && shouldExec rule.conditions inputMap

/-- What an event should send: the actions of the matching rules, in order and once each, without those
whose output has no value at the moment they are looked at. -/
def FiresOnce (rulesConfig : Rules.RulesConfig) (id : String) (inputMap : InputSharedContextMap)
    (history : List OutputSharedContextMap) (sent : List IODataAction) : Prop :=
  ∃ actions, Kept known history ((matching rulesConfig id inputMap).flatMap (·.actions)) actions ∧
    sent = actions.map (·.command)

/-- A matching rule with several conditions on the input has an action to send. -/
def Repeats (rulesConfig : Rules.RulesConfig) (id : String) (inputMap : InputSharedContextMap)
    (outputMap : OutputSharedContextMap) : Prop :=
  ∃ rule ∈ rulesConfig.rules, 2 ≤ rule.standardOn id ∧ shouldExec rule.conditions inputMap = true ∧
    ∃ action ∈ rule.actions, known outputMap action = true

/-- `handle_input` takes `SetValue(value)` for `id` in the state `s`, and in `s'` waits for the next
command. -/
structure Event (io : IoConfig) (s : St) (id : String) (value : IOValue) (ls : List Label) (s' : St) : Prop where
  run : run (step io) s (.recv (some (.action ⟨id, .setValue value⟩)) :: ls) = some s'
  within : ∀ l ∈ ls, l.Within
  ended : s'.pc = .recv

theorem owed_indexOf (rulesConfig : Rules.RulesConfig) (id : String) (inputMap : InputSharedContextMap) :
    owed inputMap [] (indexOf rulesConfig id) = rulesConfig.rules.flatMap fun rule =>
      if shouldExec rule.conditions inputMap then
        (List.replicate (rule.standardOn id) rule.actions).flatten
      else [] := by
  unfold owed indexOf
  rw [List.nil_append, List.filter_flatMap, List.flatMap_assoc]
  congr 1
  funext rule
  rw [List.filter_replicate]
  split
  · simp [List.flatMap, List.map_replicate]
  · simp

theorem matching_actions (rulesConfig : Rules.RulesConfig) (id : String) (inputMap : InputSharedContextMap) :
    (matching rulesConfig id inputMap).flatMap (·.actions) = rulesConfig.rules.flatMap fun rule =>
      if shouldExec rule.conditions inputMap then
        (if 0 < rule.standardOn id then rule.actions else [])
      else [] := by
  unfold matching
  induction rulesConfig.rules with
  | nil => rfl
  | cons rule rules ih =>
    rw [List.filter_cons, List.flatMap_cons, ← ih]
    by_cases hx : shouldExec rule.conditions inputMap <;> by_cases hc : 0 < rule.standardOn id <;> simp [hx, hc]

/-- Without a repeated rule that has something to send, index and configuration agree on the actions
that can be sent. -/
theorem filter_owed {id : String} {inputMap : InputSharedContextMap} {outputMap : OutputSharedContextMap}
    (h : ¬ Repeats rulesConfig id inputMap outputMap) :
    (owed inputMap [] (indexOf rulesConfig id)).filter (known outputMap) =
      ((matching rulesConfig id inputMap).flatMap (·.actions)).filter (known outputMap) := by
  rw [owed_indexOf, matching_actions, List.filter_flatMap, List.filter_flatMap]
  refine List.flatMap_congr ?_
  intro rule hr
  split
  · rename_i hx
    rcases Nat.lt_or_ge (rule.standardOn id) 2 with hlt | hge
    · interval_cases hc : rule.standardOn id <;> simp
    · have hdead : rule.actions.filter (known outputMap) = [] :=
        List.filter_eq_nil_iff.2 fun a ha hk => h ⟨rule, hr, hge, hx, a, ha, hk⟩
      rw [if_pos (by omega), List.filter_flatten, List.map_replicate, hdead]
      simp
  · rfl

/-- A repeated rule makes the engine look at one of its commands more often than it should. -/
theorem countP_owed {id : String} {inputMap : InputSharedContextMap} {rule : Rules.Rule} {action : Rules.Action}
    (hr : rule ∈ rulesConfig.rules) (hc : 2 ≤ rule.standardOn id)
    (hx : shouldExec rule.conditions inputMap = true) (ha : action ∈ rule.actions) (q : Rules.Action → Bool)
    (hq : q action = true) :
    ((matching rulesConfig id inputMap).flatMap (·.actions)).countP q <
      (owed inputMap [] (indexOf rulesConfig id)).countP q := by
  rw [owed_indexOf, matching_actions, List.countP_flatMap, List.countP_flatMap]
  have hcount : ∀ (n : Nat) (actions : List Rules.Action),
      (List.replicate n actions).flatten.countP q = n * actions.countP q := by
    intro n actions
    rw [List.countP_flatten, List.map_replicate, List.sum_replicate, Nat.nsmul_eq_mul]
  refine List.sum_lt_sum _ _ ?_ ⟨rule, hr, ?_⟩
  · intro r _
    simp only [Function.comp]
    split
    · rw [hcount]
      split
      · exact Nat.le_mul_of_pos_left _ (by omega)
      · simp
    · exact Nat.le_refl _
  · have hpos : 0 < rule.actions.countP q := List.countP_pos_iff.2 ⟨action, ha, hq⟩
    simp only [Function.comp, hx, if_true]
    rw [hcount, if_pos (by omega)]
    exact (Nat.lt_mul_iff_one_lt_left hpos).2 (by omega)

/-- What is sent for one event: the actions of the index, as far as they have a value when looked at. -/
theorem Event.sends {id : String} {value : IOValue} {context : InputSharedContext}
    (h : Event io s id value ls s') (hl : s.inputMap.lookup id = some context) :
    ∃ actions, Kept known (moments io s (.recv (some (.action ⟨id, .setValue value⟩)) :: ls))
        (owed (writeInput s.inputMap id value) [] context.rules) actions ∧
      s'.sent.drop s.sent.length = actions.map (·.command) := by
  obtain ⟨t, ht, hr⟩ := (run_cons _).1 h.run
  rw [moments_cons ht]
  have hres : resume { s with inputMap := writeInput s.inputMap id value } [] context.rules = t := by
    cases Step.of_step ht
    simp only [handleCommand, hl]
  obtain ⟨hrecv, hsend⟩ := run_owed hr h.within h.ended
  obtain ⟨actions, hs, hk⟩ := resume_owed hres hrecv hsend
  exact ⟨actions, hk, by rw [hs]; simp⟩

/-- **What fires for an input event**: from every reachable state and with feedback coming in at any
moment, each matching rule fires exactly once, as long as at every moment of the event no matching rule
with several conditions on the input has an action whose output has a value. If such an action has one
already when the event comes in, its command is sent too often, whatever comes in meanwhile. -/
theorem fires_once {past : List Label} {id : String} {value : IOValue}
    (hs : run (step io) (init io rulesConfig) past = some s) (hid : id ≠ "")
    (hin : ∃ input ∈ io.inputs, input.id = id) (h : Event io s id value ls s') :
    ((∀ outputMap ∈ moments io s (.recv (some (.action ⟨id, .setValue value⟩)) :: ls),
        ¬ Repeats rulesConfig id (writeInput s.inputMap id value) outputMap) →
      FiresOnce rulesConfig id (writeInput s.inputMap id value)
        (moments io s (.recv (some (.action ⟨id, .setValue value⟩)) :: ls)) (s'.sent.drop s.sent.length)) ∧
    (Repeats rulesConfig id (writeInput s.inputMap id value) s.outputMap →
      ¬ FiresOnce rulesConfig id (writeInput s.inputMap id value)
        (moments io s (.recv (some (.action ⟨id, .setValue value⟩)) :: ls)) (s'.sent.drop s.sent.length)) := by
  obtain ⟨context, hc, hrules, _⟩ := lookup_makeInputContextMap io rulesConfig hid hin
  have hctx := run_rules hs id
  rw [hc, Option.map_some, hrules] at hctx
  obtain ⟨context', hl, hrules'⟩ := Option.map_eq_some_iff.1 hctx
  obtain ⟨actions, hk, hsent⟩ := h.sends hl
  rw [hrules'] at hk
  have hknown := known_moments h.run
  constructor
  · intro hrep
    refine ⟨actions, ?_, hsent⟩
    have halive := fun om ho x hx => (hknown om ho x).2 hx
    have hlast := filter_owed (hrep _ (last_moment h.run))
    exact (hk.filter halive).of_filter hlast.symm (by simp [moments, states]) halive
  · rintro ⟨rule, hr, hcond, hx, action, ha, hka⟩ ⟨expected, he, hse⟩
    -- Whatever equals this action's command has the same output, so it has a value all along.
    have hq : ∀ om ∈ moments io s (.recv (some (.action ⟨id, .setValue value⟩)) :: ls), ∀ x : Rules.Action,
        decide (x.command = action.command) = true → known om x = true := by
      intro om ho x hxc
      have hout : x.output.id = action.output.id := congrArg IODataAction.id (of_decide_eq_true hxc)
      have := (hknown om ho action).1 hka
      unfold known at this ⊢
      rwa [hout]
    have hlt := countP_owed hr hcond hx ha (fun x => decide (x.command = action.command)) (by simp)
    rw [← hk.countP hq, ← he.countP hq] at hlt
    have hcount : ∀ as : List Rules.Action,
        as.countP (fun x => decide (x.command = action.command)) = (as.map (·.command)).count action.command := by
      intro as
      rw [List.count, List.countP_map]
      congr 1
    rw [hcount, hcount, ← hse, ← hsent] at hlt
    exact Nat.lt_irrefl _ hlt

end

/-! ## A rule with two conditions on one input -/

/-- One input, one output. -/
def hall : IoConfig :=
  ⟨⟨[⟨"Hall", "hall", [⟨"Dimmer", "dimmer", "", .scenario, "", true, true⟩],
    [⟨"Lamp", "lamp", "", .woDigital ⟨"wago", "502", 1⟩, "", true, true⟩], 0⟩]⟩⟩

/-- The lamp is toggled when the dimmer is above `0`, and below `10` if there is a second condition. -/
def dimmerRule (band : Bool) : Rules.Rule where
  name := "toggle"
  typer := ""
  conditions := .standard ⟨"dimmer", .greater, .int 0⟩ ::
    if band then [.standard ⟨"dimmer", .lower, .int 10⟩] else []
  actions := [⟨"", ⟨"lamp", .toggle⟩⟩]

/-- The engine once the lamp's state is known. -/
def lampKnown (band : Bool) : St :=
  { init hall ⟨[dimmerRule band]⟩ with outputMap := writeOutput (makeOutputContextMap hall) "lamp" (.bool true) }

/-- The engine after the dimmer went to `5`, and the commands sent for it. -/
def dimmerAt5 (band : Bool) (sent : List IODataAction) : St :=
  { lampKnown band with inputMap := writeInput (lampKnown band).inputMap "dimmer" (.int 5), sent := sent }

/-- With one condition the lamp is toggled once. -/
theorem toggled_once : FiresOnce ⟨[dimmerRule false]⟩ "dimmer" (writeInput (lampKnown false).inputMap "dimmer" (.int 5))
    (moments hall (lampKnown false) [.recv (some (.action ⟨"dimmer", .setValue (.int 5)⟩)), .sent])
    [⟨"lamp", .toggle⟩] :=
  (fires_once (show run (step hall) _ [.feedback ⟨"lamp", .bool true⟩] = some (lampKnown false) from rfl)
    (by decide) (by decide)
    (show Event _ _ _ _ _ (dimmerAt5 false [⟨"lamp", .toggle⟩]) from ⟨rfl, by simp [Label.Within], rfl⟩)).1 (by
      rintro outputMap - ⟨rule, hr, hc, _⟩
      cases List.mem_singleton.1 hr
      exact absurd hc (by decide))

/-- With two conditions it is toggled twice, which leaves it as it was. -/
theorem toggled_twice :
    run (step hall) (init hall ⟨[dimmerRule true]⟩) [.feedback ⟨"lamp", .bool true⟩] = some (lampKnown true) ∧
    Event hall (lampKnown true) "dimmer" (.int 5) [.sent, .sent]
      (dimmerAt5 true [⟨"lamp", .toggle⟩, ⟨"lamp", .toggle⟩]) ∧
    ¬ FiresOnce ⟨[dimmerRule true]⟩ "dimmer" (writeInput (lampKnown true).inputMap "dimmer" (.int 5))
      (moments hall (lampKnown true) [.recv (some (.action ⟨"dimmer", .setValue (.int 5)⟩)), .sent, .sent])
      [⟨"lamp", .toggle⟩, ⟨"lamp", .toggle⟩] := by
  refine ⟨rfl, ⟨rfl, by simp [Label.Within], rfl⟩, ?_⟩
  rintro ⟨actions, hk, hs⟩
  have hone : (matching ⟨[dimmerRule true]⟩ "dimmer"
      (writeInput (lampKnown true).inputMap "dimmer" (.int 5))).flatMap (·.actions) = [⟨"", ⟨"lamp", .toggle⟩⟩] := by
    decide
  have hlen := hk.sublist.length_le
  rw [hone] at hlen
  have := congrArg List.length hs
  simp only [List.length_map, List.length_cons, List.length_nil] at this hlen
  omega

end Calaos.Engine
