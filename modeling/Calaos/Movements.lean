import Calaos.History
import Calaos.Motors
/-!
# Timers never act for a superseded movement

The log of a run is read backwards: the task of a shutter is the one of its latest event, a start
(`InProgress`), so whatever ends the movement finds that start, and no event of the same shutter in
between (`Justified`). No assumption on the coils or on the first values is needed here.
-/
namespace Calaos.Wago

open Eff Runs History

/-- The event is a command, a start or an expiry of this output. -/
def Event.about (id : String) : Event → Bool
  | .command x _ | .started x _ _ | .expired x _ _ => decide (x = id)
  | _ => false

/-- The movement the task was made for: it was started by the latest event of the shutter, its target
is the task's, it is not due before the shutter's time is over, and the value still tells of it. -/
def InProgress (m : OutputContextMap) (s : St) (id : String) (task : Task) : Prop :=
  ∃ io target since, IsShutter m id io ∧ latest (Event.about id) s.log = some (.started id target since) ∧
    task.targetState = .shutter target ∧ since + io.time.toNanos ≤ task.deadline ∧
    Motion.ofValue (valueAt s.outputMap id) ≠ .still

/-- What the log must say before an event that ends a movement: the latest event of the shutter is its
start. An expiry reports the end of that movement, and not before its time. -/
def Justified (m : OutputContextMap) (before : List Event) : Event → Prop
  | .expired id state now => ∃ io target since, IsShutter m id io ∧
      latest (Event.about id) before = some (.started id target since) ∧ state = .shutter target ∧
      since + io.time.toNanos ≤ now
  | .command id true => ∃ target since, latest (Event.about id) before = some (.started id target since)
  | _ => True

/-- The invariant, for the tasks as `tasks` sees them. -/
structure Timed (m : OutputContextMap) (tasks : String → Option Task) (s : St) : Prop where
  kinds : kindOf s.outputMap = kindOf m
  timers : ∀ id task, tasks id = some task → InProgress m s id task
  explained : Explained (Justified m) s.log

section
variable {m : OutputContextMap} {tasks tasks' : String → Option Task} {s s' : St} {id : String}

theorem InProgress.frame {x : String} {task : Task} (h : InProgress m s x task)
    (hl : latest (Event.about x) s'.log = latest (Event.about x) s.log)
    (hv : valueAt s'.outputMap x = valueAt s.outputMap x) : InProgress m s' x task := by
  obtain ⟨io, target, since, hs, hlast, ht, hd, hm⟩ := h
  exact ⟨io, target, since, hs, hl.trans hlast, ht, hd, by rwa [hv]⟩

/-- An event of `id` is the latest of `id` and of nothing else. -/
theorem latest_about {log : List Event} {e : Event} (he : e.about id = true) :
    latest (Event.about id) (log ++ [e]) = some e := by
  rw [latest_append, if_pos he]

theorem latest_about_ne {log : List Event} {e : Event} {x : String} (he : e.about id = true) (hx : x ≠ id) :
    latest (Event.about x) (log ++ [e]) = latest (Event.about x) log := by
  have : e.about x = false := by
    cases e <;> simp [Event.about] at he ⊢ <;> subst he <;> exact Ne.symm hx
  rw [latest_append, this]
  simp

/-- A turn that concerns one output: only its value, its task and its events change. -/
theorem Timed.change (h : Timed m tasks s) (id : String) (hk : kindOf s'.outputMap = kindOf s.outputMap)
    (hv : ∀ x, x ≠ id → valueAt s'.outputMap x = valueAt s.outputMap x)
    (hl : ∀ x, x ≠ id → latest (Event.about x) s'.log = latest (Event.about x) s.log)
    (ht : ∀ x, x ≠ id → tasks' x = tasks x)
    (hid : ∀ task, tasks' id = some task → InProgress m s' id task)
    (he : Explained (Justified m) s'.log) : Timed m tasks' s' where
  kinds := hk.trans h.kinds
  timers x task hx := by
    by_cases hne : x = id
    · subst hne
      exact hid task hx
    · rw [ht x hne] at hx
      exact (h.timers x task hx).frame (hl x hne) (hv x hne)
  explained := he

/-- A moving shutter ignores no command. -/
theorem outcome_ne_ignore {om : OutputContextMap} {io : WagoIOUpDown} {d : IODataAction}
    (hs : IsShutter om d.id io) (hm : Motion.ofValue (valueAt om d.id) ≠ .still) : outcome om d ≠ .ignore := by
  obtain ⟨ctx, hl, hk, hv⟩ := context_of_kind hs
  have hnew : newValue ctx.value d.action ≠ none := by
    rw [hv]
    cases d.action with
    | setValue v => simp [newValue]
    | stop => simp [newValue]
    | toggle =>
      unfold Motion.ofValue at hm
      split at hm
      · rename_i hval
        simp [newValue, toggle, hval]
      · rename_i hval
        simp [newValue, toggle, hval]
      · exact absurd rfl hm
  rw [outcome_of_lookup hl]
  simp only [outcomeOf, hk]
  cases hn : newValue ctx.value d.action with
  | none => exact absurd hn hnew
  | some value => simp only; split <;> simp

/-- What the log says when a command comes in. -/
theorem Timed.received (h : Timed m s.tasks s) (id : String) :
    Explained (Justified m) (s.log ++ [received s id]) := by
  refine h.explained.append ?_
  unfold Wago.received
  cases hl : s.waitTask.lookup id with
  | none => trivial
  | some task =>
    obtain ⟨io, target, since, _, hlast, _⟩ := h.timers id task hl
    exact ⟨target, since, hlast⟩

theorem Timed.command {d : IODataAction} (h : Timed m s.tasks s)
    (he : CmdEffect s d.id (outcome s.outputMap d) s') : Timed m s'.tasks s' := by
  have hfor := outcome_for s.outputMap d
  have habout : (Wago.received s d.id).about d.id = true := by simp [Wago.received, Event.about]
  have hexpl := h.received d.id
  have hstale : ∀ task, s.tasks d.id = some task → outcome s.outputMap d ≠ .ignore ∧
      ∃ io, kindOf s.outputMap d.id = some (.woShutter io) := by
    intro task ht
    obtain ⟨io, _, _, hs, _, _, _, hm⟩ := h.timers d.id task ht
    have hs' : IsShutter s.outputMap d.id io := by rw [IsShutter, h.kinds]; exact hs
    exact ⟨outcome_ne_ignore hs' hm, io, hs'⟩
  cases ho : outcome s.outputMap d with
  | ignore =>
    rw [ho] at he
    cases he
    exact h.change d.id rfl (fun _ _ => rfl) (fun x hx => latest_about_ne habout hx) (fun _ _ => rfl)
      (fun task ht => absurd ho (hstale task ht).1) hexpl
  | digital io b =>
    rw [ho] at he hfor
    obtain ⟨w', _, _, rfl⟩ := he
    refine h.change d.id (kindOf_setValue _ _ _) (fun x hx => valueAt_setValue_ne hx)
      (fun x hx => latest_about_ne habout hx) (fun _ _ => rfl) ?_ hexpl
    intro task ht
    obtain ⟨_, io', hk⟩ := hstale task ht
    rw [show kindOf s.outputMap d.id = _ from hfor] at hk
    cases hk
  | halt io =>
    rw [ho] at he
    obtain ⟨w', _, _, rfl⟩ := he
    refine h.change d.id (kindOf_setValue _ _ _) (fun x hx => valueAt_setValue_ne hx)
      (fun x hx => latest_about_ne habout hx) (fun x hx => Finmap.lookup_erase_ne hx) ?_ hexpl
    intro task ht
    rw [St.tasks, Finmap.lookup_erase] at ht
    cases ht
  | start io mv =>
    rw [ho] at he hfor
    obtain ⟨hk, command, rfl⟩ := hfor
    obtain ⟨w', c, since, deadline, _, _, _, _, hdl, rfl⟩ := he
    have hstart : (Event.started d.id (movement io command).targetState since).about d.id = true := by
      simp [Event.about]
    refine h.change d.id (kindOf_setValue _ _ _) (fun x hx => valueAt_setValue_ne hx)
      (fun x hx => (latest_about_ne hstart hx).trans (latest_about_ne habout hx))
      (fun x hx => Finmap.lookup_insert_of_ne _ hx) ?_ (hexpl.append trivial)
    intro task ht
    rw [St.tasks, Finmap.lookup_insert, Option.some.injEq] at ht
    subst ht
    refine ⟨io, _, since, by rw [IsShutter, ← h.kinds]; exact hk, latest_about hstart, rfl, hdl, ?_⟩
    rw [valueAt_setValue hk, ofValue_nextState]
    cases command <;> simp [Motion.ofCommand]

/-! ## Expiry -/

theorem Timed.expire {now : Nat} {visited : List String} (h : Timed m (pending now visited s.waitTask) s)
    (hid : id ∉ visited) (he : ExpireEffect now s id s') :
    Timed m (pending now (id :: visited) s'.waitTask) s' := by
  have hpend : ∀ task, s.waitTask.lookup id = some task → pending now visited s.waitTask id = some task := by
    intro task ht
    simp [pending, ht, hid]
  have hkeys : ∀ task, s.waitTask.lookup id = some task → ∃ io, kindOf s.outputMap id = some (.woShutter io) := by
    intro task hl
    obtain ⟨io, _, _, hs, _⟩ := h.timers id task (hpend task hl)
    rw [h.kinds]
    exact ⟨io, hs⟩
  rcases he.known hkeys with ⟨rfl, hlater⟩ | ⟨task, io, w', hl, hle, hkind, _, rfl⟩
  · rwa [pending_cons hlater]
  · obtain ⟨io', target, since, hs, hlast, ht, hd, _⟩ := h.timers id task (hpend task hl)
    have habout : (Event.expired id task.targetState now).about id = true := by simp [Event.about]
    refine h.change id (kindOf_setValue _ _ _) (fun x hx => valueAt_setValue_ne hx)
      (fun x hx => latest_about_ne habout hx) (fun x hx => pending_cons_ne now visited _ hx) ?_
      (h.explained.append ⟨io', target, since, hs, hlast, ht, by omega⟩)
    intro t ht'
    simp only [pending, hl, List.mem_cons, true_or, decide_true, Bool.true_and, Option.filter_eq_some_iff,
      Option.some.injEq, Bool.not_eq_true', decide_eq_false_iff_not] at ht'
    obtain ⟨rfl, hlt⟩ := ht'
    exact absurd hle hlt

theorem Timed.idle (h : Timed m tasks s) (w : World) : Timed m tasks { s with world := w } :=
  ⟨h.kinds, fun x task hx => (h.timers x task hx).frame rfl rfl, h.explained⟩

theorem Timed.turn {l : Label} (h : Timed m s.tasks s) (hl : enabled s l) (he : Effect s l s') :
    Timed m s'.tasks s' := by
  cases l with
  | recv d =>
    cases d with
    | none => cases he; exact ⟨h.kinds, fun x task hx => (h.timers x task hx).frame rfl rfl, h.explained⟩
    | some d => exact h.command he
  | expiry order =>
    exact expiry_invariant (P := Timed m) hl.2.2 he (fun w _ => h.idle w)
      (fun now visited t id t' ht hid he => ht.expire hid he)
      fun t p ht => ⟨ht.kinds, fun x task hx => (ht.timers x task hx).frame rfl rfl, ht.explained⟩
  | keepAlive =>
    obtain ⟨w, _, rfl⟩ := he
    exact h.idle w

theorem timed_run {env : Env} {w : World} {s₀ : St} {ls : List Label} (h₀ : Started env w m s₀)
    (hr : run (step env) s₀ ls = some s) : Timed m s.tasks s := by
  have hready := h₀.ready
  refine run_invariant (step env) (I := fun t => Timed m t.tasks t)
    (fun _ _ _ hi h => hi.turn (step_spec h).1 (step_spec h).2) ?_ hr
  refine ⟨hready.kinds, ?_, ?_⟩
  · intro id task ht
    rw [St.tasks, hready.waitTask, Finmap.lookup_empty] at ht
    cases ht
  · rw [hready.log]
    exact .nil

/-! ## Positions in the log -/

/-- The movement of `id` that starts at `j` is the last one started before `i`. -/
def LastStarted (log : List Event) (id : String) (j i : Nat) : Prop :=
  j < i ∧ (∃ target since, log[j]? = some (.started id target since)) ∧
    ∀ k target since, j < k → k < i → log[k]? ≠ some (.started id target since)

/-- At `i` the movement of `id` that starts at `j` ends: by an expiry, or by a command that finds its
task still there. -/
def Ends (log : List Event) (id : String) (j i : Nat) : Prop :=
  LastStarted log id j i ∧
    ((∃ state now, log[i]? = some (.expired id state now)) ∨ log[i]? = some (.command id true))

/-- A latest event of `id` before position `i`, as a position. -/
theorem latest_take {log : List Event} {i : Nat} {e : Event}
    (h : latest (Event.about id) (log.take i) = some e) :
    ∃ j, j < i ∧ log[j]? = some e ∧ ∀ k e', j < k → k < i → log[k]? = some e' → e'.about id = false := by
  obtain ⟨j, hj, hlast⟩ := latest_at h
  have hlt : j < i := by
    have := (List.getElem?_eq_some_iff.1 hj).1
    rw [List.length_take] at this
    omega
  refine ⟨j, hlt, by rwa [List.getElem?_take_of_lt hlt] at hj, fun k e' hk hki he' => hlast k e' hk ?_⟩
  rwa [List.getElem?_take_of_lt hki]

/-- Whatever ends a movement of `id` at `i` finds its start as the latest event of `id`. -/
theorem Timed.ends (h : Timed m tasks s) {j i : Nat} (he : Ends s.log id j i) :
    ∀ k e, j < k → k < i → s.log[k]? = some e → e.about id = false := by
  obtain ⟨⟨hji, ⟨target, since, hj⟩, hlast⟩, hend⟩ := he
  have hstart : ∃ target since, latest (Event.about id) (s.log.take i) = some (.started id target since) := by
    rcases hend with ⟨state, now, hi⟩ | hi
    · obtain ⟨_, target, since, _, hl, _⟩ := h.explained.at hi
      exact ⟨target, since, hl⟩
    · exact h.explained.at hi
  obtain ⟨target', since', hl⟩ := hstart
  obtain ⟨j', hji', hj', hnone⟩ := latest_take hl
  have hjj : j' = j := by
    rcases Nat.lt_trichotomy j' j with hlt | heq | hgt
    · have := hnone j _ hlt hji hj
      simp [Event.about] at this
    · exact heq
    · exact absurd hj' (hlast j' target' since' hgt hji')
  subst hjj
  exact hnone

/-- **Timers never act for a superseded movement**: when an expiry reports a state for `id`, that is
the end of the last movement started for `id`; since that start no command for `id` came in; and the
shutter's own time has passed since its switch-on write returned. A movement ends at most once. -/
theorem expiry_for_last_movement {env : Env} {w : World} {s₀ : St} {ls : List Label} (h₀ : Started env w m s₀)
    (hr : run (step env) s₀ ls = some s) :
    (∀ i id state now, s.log[i]? = some (.expired id state now) →
      ∃ j target since io, s.log[j]? = some (.started id target since) ∧ LastStarted s.log id j i ∧
        IsShutter m id io ∧ state = .shutter target ∧
        (∀ k moving, j < k → k < i → s.log[k]? ≠ some (.command id moving)) ∧
        since + io.time.toNanos ≤ now) ∧
    ∀ id j i i', Ends s.log id j i → Ends s.log id j i' → i = i' := by
  have h := timed_run h₀ hr
  constructor
  · intro i id state now hi
    obtain ⟨io, target, since, hs, hl, hstate, hd⟩ := h.explained.at hi
    obtain ⟨j, hji, hj, hnone⟩ := latest_take hl
    refine ⟨j, target, since, io, hj, ⟨hji, ⟨target, since, hj⟩, ?_⟩, hs, hstate, ?_, hd⟩
    · intro k t u hk hki hke
      have := hnone k _ hk hki hke
      simp [Event.about] at this
    · intro k moving hk hki hke
      have := hnone k _ hk hki hke
      simp [Event.about] at this
  · intro id j i i' hi hi'
    have key : ∀ {a b : Nat}, Ends s.log id j a → Ends s.log id j b → ¬ a < b := by
      intro a b ha hb hab
      have hnone := h.ends hb
      rcases ha.2 with ⟨state, now, he⟩ | he
      · have := hnone a _ ha.1.1 hab he
        simp [Event.about] at this
      · have := hnone a _ ha.1.1 hab he
        simp [Event.about] at this
    have h₁ := key hi hi'
    have h₂ := key hi' hi
    omega

end

/-- One shutter is sent up, and its timer comes when the ten seconds are over. -/
theorem expiry_for_last_movement_blinds : ∃ (s : St) (j : Nat) (target : ShutterState) (since : Nat)
    (io : WagoIOUpDown), s.log[j]? = some (.started "blinds" target since) ∧ LastStarted s.log "blinds" j 2 ∧
    IsShutter oneShutter "blinds" io ∧ IOValue.shutter .up = .shutter target ∧
    (∀ k moving, j < k → k < 2 → s.log[k]? ≠ some (.command "blinds" moving)) ∧
    since + io.time.toNanos ≤ 220000000000 := by
  have hrun : (run (step (plcEnv 10000000000 30)) (blindsStart (plcEnv 10000000000 30))
      [setShutter .up, .expiry ["blinds"]]).map (·.log) = some [.command "blinds" false,
        .started "blinds" .up 190000000000, .expired "blinds" (.shutter .up) 220000000000] := by decide +kernel
  obtain ⟨s, hr, hlog⟩ := Option.map_eq_some_iff.1 hrun
  exact ⟨s, (expiry_for_last_movement (blinds_started _) hr).1 2 "blinds" _ _ (by rw [hlog]; rfl)⟩

end Calaos.Wago
