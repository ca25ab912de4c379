import Calaos.Movements
import Calaos.Snapshot
/-!
# The two copies of an output's state

A controller keeps the value of an output in its context and broadcasts it, and everybody else knows only
what was broadcast. Every path of `run` writes both copies with `update_state`, except one: the first loop
broadcasts `Up` for a shutter and leaves the context as it is. So the copies of a shutter part from the
start, until a command for it gets past `new_value` (`Heard`).

`Informs` is what holds of one output at any time, `Informed` is the invariant of the loop.
-/
namespace Calaos.Wago

open Eff Runs History Snapshot

/-- The commands a run has received. -/
def commands (past : List Label) : List IODataAction :=
  past.filterMap fun
    | .recv (some ioData) => some ioData
    | _ => none

/-- A command for the output has come that gets past `new_value`, with the value the context came with. -/
def Heard (m : OutputContextMap) (past : List Label) (id : String) : Prop :=
  ∃ d ∈ commands past, d.id = id ∧ newValue (valueAt m id) d.action ≠ none

/-- The copies of one output: equal for a digital output, and for a shutter once a command was heard.
Before that the context is as it came, and `Up` was broadcast. -/
def Informs (m : OutputContextMap) (past : List Label) (s : St) (id : String) : OutputKind → Prop
  | .woDigital _ => ∃ b, valueAt s.outputMap id = some (.bool b) ∧ lastValue id s.txFeedback = some (.bool b)
  | .woShutter _ =>
    (Heard m past id ∧ ∃ state, valueAt s.outputMap id = some (.shutter state) ∧
      lastValue id s.txFeedback = some (.shutter state)) ∨
    (¬ Heard m past id ∧ valueAt s.outputMap id = valueAt m id ∧
      lastValue id s.txFeedback = some (.shutter .up))
  | _ => True

/-- A value that the controller reports for an output of this kind. -/
def Fits (m : OutputContextMap) (past : List Label) (id : String) (value : IOValue) : OutputKind → Prop
  | .woDigital _ => ∃ b, value = .bool b
  | .woShutter _ => Heard m past id ∧ ∃ state, value = .shutter state
  | _ => True

/-- The invariant, for the tasks as `tasks` sees them. -/
structure Informed (m : OutputContextMap) (past : List Label) (tasks : String → Option Task) (s : St) : Prop where
  kinds : kindOf s.outputMap = kindOf m
  informs : ∀ id kind, kindOf m id = some kind → Informs m past s id kind
  heard : ∀ id task, tasks id = some task → Heard m past id ∧ ∃ target, task.targetState = .shutter target

section
variable {m : OutputContextMap} {past past' : List Label} {tasks tasks' : String → Option Task} {s s' : St}
  {id : String} {kind : OutputKind} {value : IOValue}

theorem heard_append {l : Label} {x : String} : Heard m (past ++ [l]) x ↔
    Heard m past x ∨ ∃ d, l = .recv (some d) ∧ d.id = x ∧ newValue (valueAt m x) d.action ≠ none := by
  have hc : commands (past ++ [l]) = commands past ++ commands [l] := List.filterMap_append
  have hl : ∀ d, d ∈ commands [l] ↔ l = .recv (some d) := by
    intro d
    cases l with
    | recv command => cases command <;> simp [commands, eq_comm]
    | expiry order => simp [commands]
    | keepAlive => simp [commands]
  unfold Heard
  constructor
  · rintro ⟨d, hd, hid⟩
    rw [hc, List.mem_append, hl] at hd
    rcases hd with hd | hd
    · exact .inl ⟨d, hd, hid⟩
    · exact .inr ⟨d, hd, hid⟩
  · rintro (⟨d, hd, hid⟩ | ⟨d, hd, hid⟩)
    · exact ⟨d, by rw [hc]; exact List.mem_append_left _ hd, hid⟩
    · exact ⟨d, by rw [hc]; exact List.mem_append_right _ ((hl d).2 hd), hid⟩

/-- A turn that is no command for the output is not heard. -/
theorem heard_append_ne {l : Label} {x : String} (h : ∀ d, l = .recv (some d) → d.id ≠ x) :
    Heard m (past ++ [l]) x ↔ Heard m past x := by
  rw [heard_append]
  constructor
  · rintro (hh | ⟨d, hl, hd, _⟩)
    · exact hh
    · exact absurd hd (h d hl)
  · exact .inl

theorem Informs.frame (h : Informs m past s id kind) (hv : valueAt s'.outputMap id = valueAt s.outputMap id)
    (hl : lastValue id s'.txFeedback = lastValue id s.txFeedback) (hh : Heard m past' id ↔ Heard m past id) :
    Informs m past' s' id kind := by
  unfold Informs at h ⊢
  rw [hv, hl, hh]
  exact h

theorem Informs.reported (hfit : Fits m past id value kind) (hv : valueAt s.outputMap id = some value)
    (hl : lastValue id s.txFeedback = some value) : Informs m past s id kind := by
  cases kind with
  | hueOutputLightRGB => trivial
  | mySensorsOutputShutterSmart => trivial
  | woDigital io =>
    obtain ⟨b, rfl⟩ := hfit
    exact ⟨b, hv, hl⟩
  | woShutter io =>
    obtain ⟨hh, state, rfl⟩ := hfit
    exact .inl ⟨hh, state, hv, hl⟩

theorem lastValue_append_self (log : List IOData) : lastValue id (log ++ [⟨id, value⟩]) = some value := by
  rw [lastValue_append, if_pos rfl]

theorem lastValue_append_ne (log : List IOData) {x : String} (h : x ≠ id) :
    lastValue x (log ++ [⟨id, value⟩]) = lastValue x log := by
  rw [lastValue_append, if_neg (Ne.symm h)]

/-! ## The first loop -/

/-- The first loop has gone through the ids in `visited`. -/
structure Greeted (m : OutputContextMap) (visited : String → Prop) (s : St) : Prop where
  kinds : kindOf s.outputMap = kindOf m
  waitTask : s.waitTask = ∅
  shutters : ∀ id io, IsShutter m id io → valueAt s.outputMap id = valueAt m id
  informs : ∀ id kind, visited id → kindOf m id = some kind → Informs m [] s id kind

theorem not_heard_nil (m : OutputContextMap) (id : String) : ¬ Heard m [] id := by
  rintro ⟨d, hd, _⟩
  exact absurd hd List.not_mem_nil

theorem Greeted.step {visited : List String} (h : Greeted m (fun x => x ∈ visited) s)
    (he : StartEffect s id s') : Greeted m (fun x => x ∈ id :: visited) s' := by
  have hkind : kindOf m id = kindOf s.outputMap id := by rw [h.kinds]
  cases he with
  | skip hd hs =>
    refine { h with informs := ?_ }
    intro x kind hx hk
    rcases List.mem_cons.1 hx with rfl | hx
    · rw [hkind] at hk
      cases kind with
      | hueOutputLightRGB => trivial
      | mySensorsOutputShutterSmart => trivial
      | woDigital io => exact absurd hk (hd io)
      | woShutter io => exact absurd hk (hs io)
    · exact h.informs x kind hx hk
  | digital io b w' hk _ =>
    refine { kinds := (kindOf_setValue _ _ _).trans h.kinds, waitTask := h.waitTask, shutters := ?_
             informs := ?_ }
    · intro x io' hx
      have hne : id ≠ x := hx.ne_digital (hkind.trans hk)
      rw [valueAt_setValue_ne hne.symm]
      exact h.shutters x io' hx
    · intro x kind hx hkx
      by_cases hne : x = id
      · subst hne
        rw [hkind, hk] at hkx
        cases hkx
        exact ⟨b, valueAt_setValue hk, lastValue_append_self _⟩
      · have hx' : x ∈ visited := (List.mem_cons.1 hx).resolve_left hne
        exact (h.informs x kind hx' hkx).frame (valueAt_setValue_ne hne) (lastValue_append_ne _ hne) Iff.rfl
  | shutter io w' hk _ =>
    refine { h with informs := ?_ }
    intro x kind hx hkx
    by_cases hne : x = id
    · subst hne
      have hs : IsShutter m x io := hkind.trans hk
      rw [hs] at hkx
      cases hkx
      exact .inr ⟨not_heard_nil m x, h.shutters x io hs, lastValue_append_self _⟩
    · have hx' : x ∈ visited := (List.mem_cons.1 hx).resolve_left hne
      exact (h.informs x kind hx' hkx).frame rfl (lastValue_append_ne _ hne) Iff.rfl

theorem Started.informed {env : Env} {w : World} (h : Started env w m s) : Informed m [] s.tasks s := by
  have hinit : Greeted m (fun x => x ∈ ([] : List String)) (init w m) :=
    ⟨rfl, rfl, fun _ _ _ => rfl, fun _ _ hx _ => absurd hx List.not_mem_nil⟩
  obtain ⟨visited, hv, hg⟩ :=
    h.invariant (I := fun visited => Greeted m fun x => x ∈ visited) hinit fun _ _ _ _ => Greeted.step
  refine ⟨hg.kinds, fun id kind hk => hg.informs id kind ((hv id).2 (mem_of_kindOf hk)) hk, ?_⟩
  intro id task ht
  rw [St.tasks, hg.waitTask, Finmap.lookup_empty] at ht
  cases ht

/-! ## One turn -/

/-- `update_state` writes both copies. -/
theorem Informed.report (h : Informed m past tasks s) (hk : kindOf m id = some kind)
    (hmap : s'.outputMap = setValue s.outputMap id value) (htx : s'.txFeedback = s.txFeedback ++ [⟨id, value⟩])
    (hfit : Fits m past' id value kind) (hh : ∀ x, x ≠ id → (Heard m past' x ↔ Heard m past x))
    (ht : ∀ x, x ≠ id → tasks' x = tasks x)
    (hid : ∀ task, tasks' id = some task → Heard m past' id ∧ ∃ target, task.targetState = .shutter target) :
    Informed m past' tasks' s' where
  kinds := by rw [hmap, kindOf_setValue, h.kinds]
  informs x kind' hx := by
    by_cases hne : x = id
    · subst hne
      rw [hk] at hx
      cases hx
      have hks : kindOf s.outputMap x = some kind := by rw [h.kinds]; exact hk
      exact .reported hfit (by rw [hmap]; exact valueAt_setValue hks) (by rw [htx]; exact lastValue_append_self _)
    · exact (h.informs x kind' hx).frame (by rw [hmap]; exact valueAt_setValue_ne hne)
        (by rw [htx]; exact lastValue_append_ne _ hne) (hh x hne)
  heard x task hx := by
    by_cases hne : x = id
    · subst hne
      exact hid task hx
    · rw [ht x hne] at hx
      obtain ⟨hheard, htarget⟩ := h.heard x task hx
      exact ⟨(hh x hne).2 hheard, htarget⟩

/-- A turn that reports nothing. -/
theorem Informed.idle (h : Informed m past tasks s) (hmap : s'.outputMap = s.outputMap)
    (htx : s'.txFeedback = s.txFeedback) (hh : ∀ x, Heard m past' x ↔ Heard m past x) :
    Informed m past' tasks s' where
  kinds := by rw [hmap, h.kinds]
  informs x kind hx := (h.informs x kind hx).frame (by rw [hmap]) (by rw [htx]) (hh x)
  heard x task hx := by
    obtain ⟨hheard, htarget⟩ := h.heard x task hx
    exact ⟨(hh x).2 hheard, htarget⟩

/-- A command for a shutter is ignored only where `new_value` says `continue`. -/
theorem outcome_shutter {om : OutputContextMap} {io : WagoIOUpDown} {d : IODataAction}
    (hs : IsShutter om d.id io) : outcome om d = .ignore ↔ newValue (valueAt om d.id) d.action = none := by
  obtain ⟨ctx, hl, hk, hv⟩ := context_of_kind hs
  rw [outcome_of_lookup hl, ← hv]
  simp only [outcomeOf, hk]
  cases newValue ctx.value d.action with
  | none => simp
  | some value => simp only; split <;> simp

/-- A command that a shutter does not ignore is heard. -/
theorem Informed.hears {io : WagoIOUpDown} {d : IODataAction} (h : Informed m past tasks s)
    (hs : IsShutter m d.id io) (ho : outcome s.outputMap d ≠ .ignore) :
    Heard m (past ++ [.recv (some d)]) d.id := by
  have hss : IsShutter s.outputMap d.id io := by rw [IsShutter, h.kinds]; exact hs
  rw [ne_eq, outcome_shutter hss] at ho
  rw [heard_append]
  rcases h.informs d.id _ hs with ⟨hheard, _⟩ | ⟨_, hv, _⟩
  · exact .inl hheard
  · rw [hv] at ho
    exact .inr ⟨d, rfl, rfl, ho⟩

/-- A command that is ignored changes nothing, and the output is heard as it was. -/
theorem Informed.ignored {d : IODataAction} (h : Informed m past tasks s) (ho : outcome s.outputMap d = .ignore)
    (hk : kindOf m d.id = some kind) : Informs m (past ++ [.recv (some d)]) s d.id kind := by
  have hi := h.informs d.id kind hk
  cases kind with
  | hueOutputLightRGB => trivial
  | mySensorsOutputShutterSmart => trivial
  | woDigital io => exact hi
  | woShutter io =>
    have hss : IsShutter s.outputMap d.id io := by rw [IsShutter, h.kinds]; exact hk
    rw [outcome_shutter hss] at ho
    rcases hi with ⟨hheard, hi⟩ | ⟨hno, hv, hl⟩
    · exact .inl ⟨heard_append.2 (.inl hheard), hi⟩
    · refine .inr ⟨?_, hv, hl⟩
      rw [heard_append]
      rintro (hheard | ⟨d', hd', _, hne⟩)
      · exact hno hheard
      · cases hd'
        rw [← hv] at hne
        exact hne ho

theorem Informed.command {d : IODataAction} (h : Informed m past s.tasks s)
    (he : CmdEffect s d.id (outcome s.outputMap d) s') :
    Informed m (past ++ [.recv (some d)]) s'.tasks s' := by
  have hfor := outcome_for s.outputMap d
  rw [h.kinds] at hfor
  have hother : ∀ x, x ≠ d.id → (Heard m (past ++ [.recv (some d)]) x ↔ Heard m past x) := by
    intro x hx
    refine heard_append_ne ?_
    intro d' hd' hid
    cases hd'
    exact hx hid.symm
  cases ho : outcome s.outputMap d with
  | ignore =>
    rw [ho] at he
    cases he
    refine ⟨h.kinds, ?_, ?_⟩
    · intro x kind hx
      by_cases hne : x = d.id
      · subst hne
        exact h.ignored ho hx
      · exact (h.informs x kind hx).frame rfl rfl (hother x hne)
    · intro x task hx
      obtain ⟨hheard, htarget⟩ := h.heard x task hx
      exact ⟨heard_append.2 (.inl hheard), htarget⟩
  | digital io b =>
    rw [ho] at he hfor
    obtain ⟨w', _, _, rfl⟩ := he
    refine h.report hfor rfl rfl ⟨b, rfl⟩ hother (fun _ _ => rfl) ?_
    intro task ht
    obtain ⟨hheard, htarget⟩ := h.heard d.id task ht
    exact ⟨heard_append.2 (.inl hheard), htarget⟩
  | halt io =>
    rw [ho] at he hfor
    have hs : IsShutter m d.id io := hfor
    have hheard := h.hears hs (by rw [ho]; simp)
    obtain ⟨w', _, _, rfl⟩ := he
    refine h.report hfor rfl rfl ⟨hheard, .up, rfl⟩ hother (fun x hx => Finmap.lookup_erase_ne hx) ?_
    intro task ht
    rw [St.tasks, Finmap.lookup_erase] at ht
    cases ht
  | start io mv =>
    rw [ho] at he hfor
    have hs : IsShutter m d.id io := hfor.1
    have hheard := h.hears hs (by rw [ho]; simp)
    obtain ⟨w', c, since, deadline, _, _, _, _, _, rfl⟩ := he
    refine h.report hfor.1 rfl rfl ⟨hheard, mv.nextState, rfl⟩ hother
      (fun x hx => Finmap.lookup_insert_of_ne _ hx) ?_
    intro task ht
    rw [St.tasks, Finmap.lookup_insert, Option.some.injEq] at ht
    subst ht
    exact ⟨hheard, mv.targetState, rfl⟩

theorem Informed.expire {now : Nat} {visited : List String} (h : Informed m past (pending now visited s.waitTask) s)
    (hid : id ∉ visited) (he : ExpireEffect now s id s') :
    Informed m past (pending now (id :: visited) s'.waitTask) s' := by
  have hfewer : ∀ x task, pending now (id :: visited) s.waitTask x = some task →
      pending now visited s.waitTask x = some task := by
    intro x task hx
    rw [pending, Option.filter_eq_some_iff] at hx ⊢
    obtain ⟨hl, hp⟩ := hx
    refine ⟨hl, ?_⟩
    simp only [List.mem_cons, Bool.not_eq_true', Bool.and_eq_false_iff, decide_eq_false_iff_not, not_or] at hp ⊢
    rcases hp with hp | hp
    · exact .inl hp.2
    · exact .inr hp
  have hstay : Informed m past (pending now (id :: visited) s.waitTask) s :=
    ⟨h.kinds, h.informs, fun x task hx => h.heard x task (hfewer x task hx)⟩
  cases he with
  | absent hl => exact hstay
  | later task hl hlt => exact hstay
  | due task io w' hl hle hkind _ _ =>
    have hpend : pending now visited s.waitTask id = some task := by simp [pending, hl, hid]
    have hfit : Fits m past id task.targetState (.woShutter io) := h.heard id task hpend
    rw [h.kinds] at hkind
    refine h.report hkind rfl rfl hfit (fun _ _ => Iff.rfl) (fun x hx => pending_cons_ne now visited _ hx) ?_
    intro t ht
    exact h.heard id t (hfewer id t ht)
  | unknown task hl hkind => exact hstay.idle rfl rfl fun _ => Iff.rfl
  | unexpected task k hl hkind hns => exact hstay.idle rfl rfl fun _ => Iff.rfl

/-- Only a command is heard. -/
theorem heard_quiet {l : Label} (hl : ∀ d, l ≠ .recv (some d)) (x : String) :
    Heard m (past ++ [l]) x ↔ Heard m past x :=
  heard_append_ne fun d hd => absurd hd (hl d)

theorem Informed.turn {l : Label} (h : Informed m past s.tasks s) (hl : enabled s l) (he : Effect s l s') :
    Informed m (past ++ [l]) s'.tasks s' := by
  cases l with
  | recv command =>
    cases command with
    | none =>
      cases he
      exact h.idle rfl rfl (heard_quiet (by simp))
    | some d => exact h.command he
  | expiry order =>
    have hturn : Informed m past s'.tasks s' := by
      refine expiry_invariant (P := Informed m past) hl.2.2 he (fun w _ => h.idle rfl rfl fun _ => Iff.rfl)
        (fun now visited t id t' ht hid he => ht.expire hid he) ?_
      intro t p ht
      exact ht.idle rfl rfl fun _ => Iff.rfl
    exact hturn.idle rfl rfl (heard_quiet (by simp))
  | keepAlive =>
    obtain ⟨w, _, rfl⟩ := he
    exact h.idle rfl rfl (heard_quiet (by simp))

theorem informed_run {env : Env} {w : World} {s₀ : St} {ls : List Label} (h₀ : Started env w m s₀)
    (hr : run (step env) s₀ ls = some s) : Informed m ls s.tasks s :=
  run_traced (step env) (I := fun past t => Informed m past t.tasks t)
    (fun _ _ _ _ hi h => hi.turn (step_spec h).1 (step_spec h).2) h₀.informed hr

/-! ## The copies agree -/

/-- The controller and the rest of the system agree on the state of the output: the context has the value
that was broadcast last, so has the shared map of any engine that has consumed what was broadcast for the
output, and a toggle finds it. -/
structure Agreed (s : St) (id : String) (value : IOValue) : Prop where
  context : valueAt s.outputMap id = some value
  broadcast : lastValue id s.txFeedback = some value
  shared : ∀ (io : IoConfig) (rulesConfig : Rules.RulesConfig) (past : List Engine.Label) (e : Engine.St),
    run (Engine.step io) (Engine.init io rulesConfig) past = some e → (∃ output ∈ io.outputs, output.id = id) →
    (Engine.feedbacks past).filter (fun d => decide (d.id = id)) =
      s.txFeedback.filter (fun d => decide (d.id = id)) →
    (e.outputMap.lookup id).bind (·.value) = some value
  toggle : outcome s.outputMap ⟨id, .toggle⟩ ≠ .ignore

/-- Whoever has consumed the broadcasts for the output knows the last one. -/
theorem shared_lastValue {io : IoConfig} {rulesConfig : Rules.RulesConfig} {past : List Engine.Label}
    {e : Engine.St} (h : run (Engine.step io) (Engine.init io rulesConfig) past = some e)
    (ho : ∃ output ∈ io.outputs, output.id = id) {log : List IOData}
    (hf : (Engine.feedbacks past).filter (fun d => decide (d.id = id)) =
      log.filter (fun d => decide (d.id = id))) :
    (e.outputMap.lookup id).bind (·.value) = lastValue id log := by
  obtain ⟨output, hmem, rfl⟩ := ho
  obtain ⟨context, hl⟩ :=
    Option.isSome_iff_exists.1 (Finmap.lookup_isSome.2 ((complete_make io rulesConfig).2 output hmem))
  rw [run_outputMap h, lookup_outputsAfter, hl, Option.map_some, Option.bind_some]
  unfold lastValue latest
  rw [hf]

/-- A toggle finds a value that has an opposite of its own kind. -/
theorem outcome_toggle (hk : kindOf s.outputMap id = some kind) (hv : valueAt s.outputMap id = some value)
    (hfit : (∃ io, kind = .woDigital io) ∧ (∃ b, value = .bool b) ∨
      (∃ io, kind = .woShutter io) ∧ ∃ state, value = .shutter state) :
    outcome s.outputMap ⟨id, .toggle⟩ ≠ .ignore := by
  rcases hfit with ⟨⟨io, rfl⟩, b, rfl⟩ | ⟨⟨io, rfl⟩, state, rfl⟩
  · obtain ⟨ctx, hl, hkind, hvalue⟩ := context_of_kind hk
    rw [outcome_of_lookup (d := ⟨id, .toggle⟩) hl]
    simp [outcomeOf, newValue, hkind, hvalue, hv, Calaos.toggle]
  · have hs : IsShutter s.outputMap id io := hk
    rw [ne_eq, outcome_shutter (d := ⟨id, .toggle⟩) hs, hv]
    cases state <;> simp [newValue, Calaos.toggle]

/-- **The copies agree on an output exactly when it is digital, or its context came with the `Up` that is
broadcast at the start, or a command for it has been heard.** Otherwise, where the context came without a
value, a toggle is ignored. -/
theorem copies_agree {env : Env} {w : World} {s₀ : St} {ls : List Label} (h₀ : Started env w m s₀)
    (hr : run (step env) s₀ ls = some s) :
    (∀ id io, kindOf m id = some (.woDigital io) → ∃ value, Agreed s id value) ∧
    (∀ id io, kindOf m id = some (.woShutter io) →
      ((∃ value, Agreed s id value) ↔ valueAt m id = some (.shutter .up) ∨ Heard m ls id)) ∧
    ∀ id io, kindOf m id = some (.woShutter io) → valueAt m id = none → ¬ Heard m ls id →
      lastValue id s.txFeedback = some (.shutter .up) ∧ outcome s.outputMap ⟨id, .toggle⟩ = .ignore := by
  have h := informed_run h₀ hr
  have hkinds : ∀ {id kind}, kindOf m id = some kind → kindOf s.outputMap id = some kind := by
    intro id kind hk
    rw [h.kinds]
    exact hk
  refine ⟨?_, ?_, ?_⟩
  · intro id io hk
    obtain ⟨b, hv, hl⟩ := h.informs id _ hk
    refine ⟨.bool b, hv, hl, ?_, outcome_toggle (hkinds hk) hv (.inl ⟨⟨io, rfl⟩, b, rfl⟩)⟩
    intro ioConfig rulesConfig past e he ho hf
    rw [shared_lastValue he ho hf, hl]
  · intro id io hk
    have hmake : ∀ state, valueAt s.outputMap id = some (.shutter state) →
        lastValue id s.txFeedback = some (.shutter state) → ∃ value, Agreed s id value := by
      intro state hv hl
      refine ⟨.shutter state, hv, hl, ?_, outcome_toggle (hkinds hk) hv (.inr ⟨⟨io, rfl⟩, state, rfl⟩)⟩
      intro ioConfig rulesConfig past e he ho hf
      rw [shared_lastValue he ho hf, hl]
    rcases h.informs id _ hk with ⟨hheard, state, hv, hl⟩ | ⟨hno, hv, hl⟩
    · exact ⟨fun _ => .inr hheard, fun _ => hmake state hv hl⟩
    · constructor
      · rintro ⟨value, ha⟩
        left
        have hvalue : some value = some (.shutter .up) := ha.broadcast.symm.trans hl
        rw [← hv, ha.context, hvalue]
      · rintro (hup | hheard)
        · exact hmake .up (hv.trans hup) hl
        · exact absurd hheard hno
  · intro id io hk hnone hno
    rcases h.informs id _ hk with ⟨hheard, _⟩ | ⟨_, hv, hl⟩
    · exact absurd hheard hno
    · refine ⟨hl, ?_⟩
      have hs : IsShutter s.outputMap id io := hkinds hk
      rw [outcome_shutter (d := ⟨id, .toggle⟩) hs, hv, hnone]
      rfl

end

/-- The command that `new_value` has nothing for. -/
def toggleBlinds : Label := .recv (some ⟨"blinds", .toggle⟩)

/-- Everybody was told that the blinds are up, and to toggle them changes nothing. -/
theorem copies_part_blinds :
    Started (plcEnv 1000000 30) idleWorld oneShutter (blindsStart (plcEnv 1000000 30)) ∧
    lastValue "blinds" (blindsStart (plcEnv 1000000 30)).txFeedback = some (.shutter .up) ∧
    valueAt (blindsStart (plcEnv 1000000 30)).outputMap "blinds" = none ∧
    (¬ ∃ value, Agreed (blindsStart (plcEnv 1000000 30)) "blinds" value) ∧
    ∃ s, run (step (plcEnv 1000000 30)) (blindsStart (plcEnv 1000000 30)) [toggleBlinds] = some s ∧
      s.txFeedback = [⟨"blinds", .shutter .up⟩] ∧ valueAt s.outputMap "blinds" = none := by
  refine ⟨blinds_started 1000000, rfl, rfl, ?_, _, rfl, rfl, rfl⟩
  rintro ⟨value, ha⟩
  have hnone : valueAt (blindsStart (plcEnv 1000000 30)).outputMap "blinds" = none := rfl
  have hvalue := ha.context
  rw [hnone] at hvalue
  cases hvalue

/-- Once the blinds were sent up, the copies agree. -/
theorem copies_agree_blinds :
    ∃ value, Agreed (blindsAfter (plcEnv 1000000 30) [setShutter .up]) "blinds" value := by
  have hheard : Heard oneShutter [setShutter .up] "blinds" :=
    ⟨⟨"blinds", .setValue (.shutter .up)⟩, List.mem_singleton.2 rfl, rfl, by simp [newValue]⟩
  have hrun : run (step (plcEnv 1000000 30)) (blindsStart (plcEnv 1000000 30)) [setShutter .up] =
      some (blindsAfter (plcEnv 1000000 30) [setShutter .up]) := rfl
  exact ((copies_agree (blinds_started 1000000) hrun).2.1 "blinds" blinds rfl).2 (.inr hheard)

end Calaos.Wago
