import Calaos.WagoStart
/-!
# Coils, values and tasks tell the same story

What a shutter does is a `Motion`: still, going up, going down. The controller keeps it in three
places, and `Shows` reads it off all of them: the two coils, the value in `output_map`, and the target
of the task in `wait_task`. `Agree` is the invariant of the loop, for the tasks as some view of
`wait_task` gives them: between turns that is `wait_task` itself, inside the expiry loop it is
`wait_task` without the due tasks already handled (`pending`), which `retain` then makes true.
-/
namespace Calaos.Wago

open Eff Runs

/-- What a shutter is doing. -/
inductive Motion where
  | still
  | up
  | down
deriving DecidableEq, Repr

/-- The motion a command starts. -/
def Motion.ofCommand : ShutterState → Motion
  | .up | .movingUp => .up
  | .down | .movingDown => .down

/-- The motion the reported value speaks of. -/
def Motion.ofValue : Option IOValue → Motion
  | some (.shutter .movingUp) => .up
  | some (.shutter .movingDown) => .down
  | _ => .still

/-- The end of the motion, which a task has as its target. -/
def Motion.target : Motion → Option IOValue
  | .still => none
  | .up => some (.shutter .up)
  | .down => some (.shutter .down)

/-- The value of the output handled under `id`. -/
def valueAt (m : OutputContextMap) (id : String) : Option IOValue := (m.lookup id).bind (·.value)

/-- The context of an output of some kind. -/
theorem context_of_kind {om : OutputContextMap} {id : String} {kind : OutputKind} (h : kindOf om id = some kind) :
    ∃ ctx, om.lookup id = some ctx ∧ ctx.output.kind = kind ∧ ctx.value = valueAt om id := by
  obtain ⟨ctx, hl, hk⟩ := Option.map_eq_some_iff.1 h
  exact ⟨ctx, hl, hk, by rw [valueAt, hl, Option.bind_some]⟩

theorem outcome_of_lookup {om : OutputContextMap} {d : IODataAction} {ctx : OutputContext}
    (h : om.lookup d.id = some ctx) : outcome om d = outcomeOf ctx d.action := by
  rw [outcome, h]

/-- `wait_task` as a function. -/
abbrev St.tasks (s : St) (id : String) : Option Task := s.waitTask.lookup id

/-- The shutter handled under `id` is in `motion`, by its coils, its value and its task. -/
structure Shows (task : Option Task) (s : St) (id : String) (io : WagoIOUpDown) (motion : Motion) : Prop where
  up : lit s.world.coils io.varUp = decide (motion = .up)
  down : lit s.world.coils io.varDown = decide (motion = .down)
  value : Motion.ofValue (valueAt s.outputMap id) = motion
  task : task.map (·.targetState) = motion.target

/-- A warning of the expiry loop. -/
def Event.Warns : Event → Prop
  | .unexpectedTask _ | .unknownTask _ => True
  | _ => False

/-- The invariant, for the tasks as `tasks` sees them. -/
structure Agree (m : OutputContextMap) (tasks : String → Option Task) (s : St) : Prop where
  kinds : kindOf s.outputMap = kindOf m
  shows : ∀ id io, IsShutter m id io → ∃ motion, Shows (tasks id) s id io motion
  keys : ∀ id task, s.waitTask.lookup id = some task → ∃ io, IsShutter m id io
  calm : ∀ e ∈ s.log, ¬ e.Warns

/-! ## Powering one shutter -/

/-- `c'` is `c` with the coils of one shutter as `motion` wants them. -/
structure Powers (io : WagoIOUpDown) (motion : Motion) (c c' : Coils) : Prop where
  up : lit c' io.varUp = decide (motion = .up)
  down : lit c' io.varDown = decide (motion = .down)
  other : ∀ v, coilAddr v ≠ coilAddr io.varUp → coilAddr v ≠ coilAddr io.varDown → lit c' v = lit c v

theorem Stopped.powers {io : WagoIOUpDown} {c c' : Coils} (h : Stopped io c c') : Powers io .still c c' where
  up := h.dark.1
  down := h.dark.2
  other v hu hd := by rw [h, if_neg (not_or.2 ⟨hu, hd⟩)]

/-- Switching on right after stopping leaves one coil on. -/
theorem Stopped.powers_on {io : WagoIOUpDown} {c₀ c c' : Coils} {command : ShutterState} (h : Stopped io c₀ c)
    (hne : coilAddr io.varUp ≠ coilAddr io.varDown) (hs : Sets (movement io command).varOn true c c') :
    Powers io (.ofCommand command) c₀ c' := by
  obtain ⟨hu, hd⟩ := h.dark
  refine ⟨?_, ?_, ?_⟩
  · rw [hs.lit, hu]; cases command <;> simp [movement, Motion.ofCommand, hne]
  · rw [hs.lit, hd]; cases command <;> simp [movement, Motion.ofCommand, hne.symm]
  · intro v hvu hvd
    have hv : coilAddr v ≠ coilAddr (movement io command).varOn := by cases command <;> assumption
    rw [hs.lit, if_neg hv, h, if_neg (not_or.2 ⟨hvu, hvd⟩)]

/-- Powering one shutter leaves the coils of another as they are. -/
theorem Powers.elsewhere {m : OutputContextMap} {id x : String} {io io' : WagoIOUpDown} {motion : Motion}
    {c c' : Coils} (h : Powers io motion c c') (hd : DistinctCoils m) (hs : IsShutter m id io)
    (hx : IsShutter m x io') (hne : x ≠ id) :
    lit c' io'.varUp = lit c io'.varUp ∧ lit c' io'.varDown = lit c io'.varDown := by
  obtain ⟨huu, hdu⟩ := hd.other hx (Ne.symm hne) hs (a := coilAddr io.varUp) (by simp [coilsOf])
  obtain ⟨hud, hdd⟩ := hd.other hx (Ne.symm hne) hs (a := coilAddr io.varDown) (by simp [coilsOf])
  exact ⟨h.other _ huu hud, h.other _ hdu hdd⟩

/-- So does setting a digital output. -/
theorem sets_elsewhere {m : OutputContextMap} {id x : String} {wio : WagoIO} {io : WagoIOUpDown} {b : Bool}
    {c c' : Coils} (h : Sets wio.var b c c') (hd : DistinctCoils m) (hk : kindOf m id = some (.woDigital wio))
    (hx : IsShutter m x io) : lit c' io.varUp = lit c io.varUp ∧ lit c' io.varDown = lit c io.varDown := by
  obtain ⟨hu, hdn⟩ := hd.other hx (hx.ne_digital hk) hk (a := coilAddr wio.var) (by simp [coilsOf])
  constructor
  · rw [h.lit, if_neg hu]
  · rw [h.lit, if_neg hdn]

theorem ofValue_nextState (io : WagoIOUpDown) (command : ShutterState) :
    Motion.ofValue (some (.shutter (movement io command).nextState)) = .ofCommand command := by
  cases command <;> rfl

theorem target_ofCommand (io : WagoIOUpDown) (command : ShutterState) :
    (Motion.ofCommand command).target = some (.shutter (movement io command).targetState) := by
  cases command <;> rfl

/-- The end of a motion is no motion. -/
theorem Motion.target_still {motion : Motion} {v : IOValue} (h : motion.target = some v) :
    Motion.ofValue (some v) = .still := by
  cases motion <;> cases h <;> rfl

/-! ## Changing one output -/

section
variable {m : OutputContextMap} {tasks tasks' : String → Option Task} {s s' : St} {id : String}

theorem valueAt_setValue {value : IOValue} {kind : OutputKind} (h : kindOf s.outputMap id = some kind) :
    valueAt (setValue s.outputMap id value) id = some value := by
  obtain ⟨ctx, hl, _⟩ := context_of_kind h
  unfold valueAt setValue
  rw [HMap.lookup_modify, hl]
  rfl

theorem valueAt_setValue_ne {value : IOValue} {x : String} (h : x ≠ id) :
    valueAt (setValue s.outputMap id value) x = valueAt s.outputMap x := by
  unfold valueAt setValue
  rw [HMap.lookup_modify_ne _ _ h]

/-- Every shutter other than `id` shows what it showed. -/
theorem Shows.frame {x : String} {io : WagoIOUpDown} {motion : Motion} (h : Shows (tasks x) s x io motion)
    (hu : lit s'.world.coils io.varUp = lit s.world.coils io.varUp)
    (hd : lit s'.world.coils io.varDown = lit s.world.coils io.varDown)
    (hv : valueAt s'.outputMap x = valueAt s.outputMap x) (ht : tasks' x = tasks x) :
    Shows (tasks' x) s' x io motion :=
  ⟨hu.trans h.up, hd.trans h.down, by rw [hv]; exact h.value, by rw [ht]; exact h.task⟩

/-- A change to the shutter `id` and to nothing else keeps the agreement, if it changes all three
places together. -/
theorem Agree.shutter {io : WagoIOUpDown} {motion : Motion} {value : IOValue} (hd : DistinctCoils m)
    (h : Agree m tasks s) (hs : IsShutter m id io) (hp : Powers io motion s.world.coils s'.world.coils)
    (hmap : s'.outputMap = setValue s.outputMap id value) (hv : Motion.ofValue (some value) = motion)
    (ht : (tasks' id).map (·.targetState) = motion.target) (hto : ∀ x, x ≠ id → tasks' x = tasks x)
    (hkeys : ∀ x task, s'.waitTask.lookup x = some task → x = id ∨ s.waitTask.lookup x = some task)
    (hcalm : ∀ e ∈ s'.log, ¬ e.Warns) : Agree m tasks' s' where
  kinds := by rw [hmap, kindOf_setValue, h.kinds]
  shows x io' hx := by
    by_cases hne : x = id
    · subst hne
      rw [IsShutter, show kindOf m x = _ from hs] at hx
      cases hx
      have hk : kindOf s.outputMap x = some (.woShutter io) := by rw [h.kinds]; exact hs
      exact ⟨motion, hp.up, hp.down, by rw [hmap, valueAt_setValue hk, hv], ht⟩
    · obtain ⟨mo, hmo⟩ := h.shows x io' hx
      obtain ⟨hup, hdown⟩ := hp.elsewhere hd hs hx hne
      exact ⟨mo, hmo.frame hup hdown (by rw [hmap, valueAt_setValue_ne hne]) (hto x hne)⟩
  keys x task hx := (hkeys x task hx).elim (fun e => ⟨io, e ▸ hs⟩) (h.keys x task)
  calm := hcalm

/-- A digital output has its own coil and its own value. -/
theorem Agree.digital {wio : WagoIO} {b : Bool} (hd : DistinctCoils m) (h : Agree m tasks s)
    (hk : kindOf m id = some (.woDigital wio)) (hc : Sets wio.var b s.world.coils s'.world.coils)
    (hmap : s'.outputMap = setValue s.outputMap id (.bool b)) (hw : s'.waitTask = s.waitTask)
    (hcalm : ∀ e ∈ s'.log, ¬ e.Warns) : Agree m tasks s' where
  kinds := by rw [hmap, kindOf_setValue, h.kinds]
  shows x io hx := by
    obtain ⟨mo, hmo⟩ := h.shows x io hx
    obtain ⟨hup, hdown⟩ := sets_elsewhere hc hd hk hx
    exact ⟨mo, hmo.frame hup hdown (by rw [hmap, valueAt_setValue_ne (hx.ne_digital hk).symm]) rfl⟩
  keys := by rw [hw]; exact h.keys
  calm := hcalm

/-- Nothing but the clock and the log moved. -/
theorem Agree.idle (h : Agree m tasks s) (hc : s'.world.coils = s.world.coils)
    (hmap : s'.outputMap = s.outputMap) (hw : s'.waitTask = s.waitTask) (hcalm : ∀ e ∈ s'.log, ¬ e.Warns) :
    Agree m tasks s' where
  kinds := by rw [hmap, h.kinds]
  shows x io hx := by
    obtain ⟨mo, hmo⟩ := h.shows x io hx
    exact ⟨mo, hmo.frame (by rw [hc]) (by rw [hc]) (by rw [hmap]) rfl⟩
  keys := by rw [hw]; exact h.keys
  calm := hcalm

theorem calm_append {log : List Event} {e : Event} (h : ∀ e ∈ log, ¬ e.Warns) (he : ¬ e.Warns) :
    ∀ e' ∈ log ++ [e], ¬ e'.Warns := by
  intro e' h'
  rcases List.mem_append.1 h' with h' | h'
  · exact h e' h'
  · rw [List.mem_singleton.1 h']; exact he

/-! ## One command -/

/-- The case fits the output it is for. -/
def Outcome.For (kind : Option OutputKind) : Outcome → Prop
  | .ignore => True
  | .digital io _ => kind = some (.woDigital io)
  | .start io mv => kind = some (.woShutter io) ∧ ∃ command, mv = movement io command
  | .halt io => kind = some (.woShutter io)

theorem outcome_for (om : OutputContextMap) (d : IODataAction) : (outcome om d).For (kindOf om d.id) := by
  unfold outcome kindOf
  cases om.lookup d.id with
  | none => trivial
  | some ctx =>
    simp only [outcomeOf, Option.map_some]
    cases newValue ctx.value d.action with
    | none => trivial
    | some value =>
      cases ctx.output.kind with
      | hueOutputLightRGB => trivial
      | mySensorsOutputShutterSmart => trivial
      | woDigital io =>
        simp only
        split
        · exact rfl
        · trivial
      | woShutter io =>
        simp only
        cases shutterCommand ctx.value value with
        | none => exact rfl
        | some command => exact ⟨rfl, command, rfl⟩

theorem Agree.command {o : Outcome} (hd : DistinctCoils m) (h : Agree m s.tasks s)
    (ho : o.For (kindOf s.outputMap id)) (he : CmdEffect s id o s') : Agree m s'.tasks s' := by
  have hcalm := calm_append h.calm (e := received s id) (by simp [received, Event.Warns])
  rw [h.kinds] at ho
  cases o with
  | ignore =>
    cases he
    exact h.idle rfl rfl rfl hcalm
  | digital io b =>
    obtain ⟨w', hc, _, rfl⟩ := he
    exact h.digital hd ho hc rfl rfl hcalm
  | halt io =>
    obtain ⟨w', hc, _, rfl⟩ := he
    refine h.shutter hd ho hc.powers rfl rfl ?_ (fun x hx => Finmap.lookup_erase_ne hx) ?_ hcalm
    · rw [St.tasks, Finmap.lookup_erase]; rfl
    · exact fun x task hx => .inr (HMap.lookup_of_erase hx)
  | start io mv =>
    obtain ⟨hs, command, rfl⟩ := ho
    obtain ⟨w', c, t, deadline, hst, hon, _, _, _, rfl⟩ := he
    refine h.shutter hd hs (hst.powers_on (hd.own hs) hon) rfl (ofValue_nextState io command) ?_
      (fun x hx => Finmap.lookup_insert_of_ne _ hx) ?_ (calm_append hcalm (by simp [Event.Warns]))
    · rw [St.tasks, Finmap.lookup_insert, target_ofCommand io command]; rfl
    · exact fun x task hx => HMap.lookup_insert_cases hx

/-! ## Expiry -/

/-- `wait_task` once the due tasks of the ids in `visited` are handled. -/
def pending (now : Nat) (visited : List String) (waitTask : HMap String Task) (id : String) : Option Task :=
  (waitTask.lookup id).filter fun task => !(decide (id ∈ visited) && decide (task.deadline ≤ now))

theorem pending_nil (now : Nat) (waitTask : HMap String Task) :
    pending now [] waitTask = fun id => waitTask.lookup id := by
  funext id
  unfold pending
  cases waitTask.lookup id <;> simp

/-- Visiting `id` changes nothing for the other ids. -/
theorem pending_cons_ne (now : Nat) (visited : List String) (waitTask : HMap String Task) {x : String}
    (h : x ≠ id) : pending now (id :: visited) waitTask x = pending now visited waitTask x := by
  simp [pending, h]

/-- Nor for `id`, unless its task is due. -/
theorem pending_cons {now : Nat} {visited : List String} {waitTask : HMap String Task}
    (h : ∀ task, waitTask.lookup id = some task → now < task.deadline) :
    pending now (id :: visited) waitTask = pending now visited waitTask := by
  funext x
  by_cases hx : x = id
  · subst hx
    unfold pending
    cases hl : waitTask.lookup x with
    | none => rfl
    | some task => have := h task hl; simp [Option.filter, show ¬ task.deadline ≤ now by omega]
  · exact pending_cons_ne now visited waitTask hx

theorem ExpireEffect.waitTask {now : Nat} (he : ExpireEffect now s id s') : s'.waitTask = s.waitTask := by
  cases he <;> rfl

theorem Agree.expire {now : Nat} {visited : List String} (hd : DistinctCoils m)
    (h : Agree m (pending now visited s.waitTask) s) (hid : id ∉ visited) (he : ExpireEffect now s id s') :
    Agree m (pending now (id :: visited) s'.waitTask) s' := by
  have hkeys : ∀ task, s.waitTask.lookup id = some task → ∃ io, kindOf s.outputMap id = some (.woShutter io) := by
    rw [h.kinds]
    exact h.keys id
  rcases he.known hkeys with ⟨rfl, hlater⟩ | ⟨task, io, w', hl, hle, hkind, hc, rfl⟩
  · rwa [pending_cons hlater]
  · rw [h.kinds] at hkind
    obtain ⟨motion, hm⟩ := h.shows id io hkind
    have hpend : pending now visited s.waitTask id = some task := by simp [pending, hl, hid]
    have htarget : motion.target = some task.targetState := by rw [← hm.task, hpend]; rfl
    refine h.shutter hd hkind hc.powers rfl (Motion.target_still htarget) ?_
      (fun x hx => pending_cons_ne now visited _ hx) (fun x t hx => .inr hx)
      (calm_append h.calm (by simp [Event.Warns]))
    simp [pending, hl, hle, Motion.target]

/-- `retain` is what makes `wait_task` catch up with the loop before it. -/
theorem retain_eq_pending {now : Nat} {visited : List String} {waitTask : HMap String Task}
    (h : ∀ x, x ∈ waitTask → x ∈ visited) :
    (fun id => (waitTask.retain fun _ task => task.deadline > now).lookup id) = pending now visited waitTask := by
  funext x
  rw [HMap.lookup_retain]
  unfold pending
  cases hl : waitTask.lookup x with
  | none => rfl
  | some task =>
    have hx : x ∈ visited := h x (Finmap.mem_of_lookup_eq_some hl)
    by_cases hle : task.deadline ≤ now
    · simp [Option.filter, hx, hle]
    · simp [Option.filter, hx, hle, show now < task.deadline by omega]

/-- The expiry branch, for an invariant that speaks of the tasks still to handle: it is enough that
the loop body keeps it. -/
theorem expiry_invariant {P : (String → Option Task) → St → Prop} {order : List String}
    (ho : HMap.Enumerates order s.waitTask) (he : ExpiryEffect s order s')
    (hidle : ∀ w, Idle s.world w → P s.tasks { s with world := w })
    (hstep : ∀ now visited t id t', P (pending now visited t.waitTask) t → id ∉ visited →
      ExpireEffect now t id t' → P (pending now (id :: visited) t'.waitTask) t')
    (hretain : ∀ (t : St) p, P (fun id => (t.waitTask.retain p).lookup id) t →
      P (fun id => (t.waitTask.retain p).lookup id) { t with waitTask := t.waitTask.retain p }) :
    P s'.tasks s' := by
  obtain ⟨w, now, t, hi, _, ha, rfl⟩ := he
  have hloop : ∀ {ids : List String} {a b : St}, ExpireAll now a ids b → ∀ {visited : List String},
      P (pending now visited a.waitTask) a → ids.Nodup → (∀ x ∈ ids, x ∉ visited) →
      ∃ visited', (∀ x, x ∈ visited' ↔ x ∈ ids ∨ x ∈ visited) ∧ b.waitTask = a.waitTask ∧
        P (pending now visited' b.waitTask) b := by
    intro ids a b hab
    induction hab with
    | nil a => exact fun {visited} ha _ _ => ⟨visited, by simp, rfl, ha⟩
    | @cons a a' b x xs hx _ ih =>
      intro visited h hn hv
      rw [List.nodup_cons] at hn
      obtain ⟨visited', hmem, hw, h'⟩ := ih (hstep now visited a x a' h (hv x (by simp)) hx) hn.2
        fun y hy hyv => by
          rcases List.mem_cons.1 hyv with rfl | hyv
          · exact hn.1 hy
          · exact hv y (by simp [hy]) hyv
      refine ⟨visited', ?_, hw.trans hx.waitTask, h'⟩
      intro y
      rw [hmem, List.mem_cons, List.mem_cons, or_left_comm, or_assoc]
  have h₀ : P (pending now [] s.waitTask) { s with world := w } := by
    rw [pending_nil]
    exact hidle w hi
  obtain ⟨visited, hmem, hw, h₁⟩ := hloop ha h₀ ho.1 (by simp)
  have hr : (fun x => (t.waitTask.retain fun _ task => task.deadline > now).lookup x) =
      pending now visited t.waitTask :=
    retain_eq_pending fun x hx => by rw [hmem, ho.2]; left; rwa [hw] at hx
  rw [← hr] at h₁
  exact hretain t _ h₁

theorem Agree.expiry {order : List String} (hd : DistinctCoils m) (h : Agree m s.tasks s)
    (ho : HMap.Enumerates order s.waitTask) (he : ExpiryEffect s order s') : Agree m s'.tasks s' := by
  refine expiry_invariant (P := Agree m) ho he (fun w hi => h.idle hi.coils rfl rfl h.calm)
    (fun now visited t id t' ht hid he => ht.expire hd hid he) ?_
  intro t p ht
  refine { kinds := ht.kinds, shows := ?_, keys := ?_, calm := ht.calm }
  · intro x io hx
    obtain ⟨mo, hmo⟩ := ht.shows x io hx
    exact ⟨mo, hmo.up, hmo.down, hmo.value, hmo.task⟩
  · intro x task hx
    rw [HMap.lookup_retain, Option.filter_eq_some_iff] at hx
    exact ht.keys x task hx.1

/-! ## Runs -/

theorem Agree.turn {l : Label} (hd : DistinctCoils m) (h : Agree m s.tasks s) (hl : enabled s l)
    (he : Effect s l s') : Agree m s'.tasks s' := by
  cases l with
  | recv d =>
    cases d with
    | none => cases he; exact h.idle rfl rfl rfl h.calm
    | some d => exact h.command hd (outcome_for _ d) he
  | expiry order => exact h.expiry hd hl.2.2 he
  | keepAlive =>
    obtain ⟨w, hi, rfl⟩ := he
    exact h.idle hi.coils rfl rfl h.calm

/-- The startup loop leaves every shutter still, in all three places. -/
theorem Readied.agree (h : Readied m (fun _ => True) s) (hnone : ∀ id, valueAt m id = none) :
    Agree m s.tasks s where
  kinds := h.kinds
  shows id io hs := by
    obtain ⟨hu, hd⟩ := h.dark id io trivial hs
    refine ⟨.still, hu, hd, ?_, ?_⟩
    · rw [valueAt, h.values id io hs, ← valueAt, hnone]; rfl
    · rw [St.tasks, h.waitTask, Finmap.lookup_empty]; rfl
  keys id task ht := by rw [h.waitTask, Finmap.lookup_empty] at ht; cases ht
  calm := by rw [h.log]; exact fun _ he => absurd he List.not_mem_nil

theorem agree_run {env : Env} {w : World} {s₀ : St} {ls : List Label} (hd : DistinctCoils m)
    (hnone : ∀ id, valueAt m id = none) (h₀ : Started env w m s₀) (hr : run (step env) s₀ ls = some s) :
    Agree m s.tasks s :=
  run_invariant (step env) (I := fun t => Agree m t.tasks t)
    (fun _ _ _ hi h => hi.turn hd (step_spec h).1 (step_spec h).2) (h₀.ready.agree hnone) hr

/-- The value says that the shutter moves exactly when there is a task for the end of that motion. -/
theorem Shows.value_iff_task {task : Option Task} {io : WagoIOUpDown} {motion mo : Motion} (h : Shows task s id io motion)
    (moving target : ShutterState) (hm : ∀ v, Motion.ofValue v = mo ↔ v = some (.shutter moving))
    (ht : ∀ x : Motion, x.target = some (.shutter target) ↔ x = mo) :
    valueAt s.outputMap id = some (.shutter moving) ↔
      ∃ t, task = some t ∧ t.targetState = .shutter target := by
  rw [← hm, h.value, ← ht, ← h.task, Option.map_eq_some_iff]

/-- **No motor without a pending stop**: in every state between two turns, a coil of a shutter is on
exactly when its value says that it moves that way, which is exactly when `wait_task` has a task that
will end this motion. No task is about anything else than a shutter, and the two warnings of the
expiry loop are never given. -/
theorem motors {env : Env} {w : World} {s₀ : St} {ls : List Label} (hd : DistinctCoils m)
    (hnone : ∀ id, valueAt m id = none) (h₀ : Started env w m s₀) (hr : run (step env) s₀ ls = some s) :
    (∀ id io, IsShutter m id io →
      ((lit s.world.coils io.varUp = true ↔ valueAt s.outputMap id = some (.shutter .movingUp)) ∧
        (valueAt s.outputMap id = some (.shutter .movingUp) ↔
          ∃ task, s.waitTask.lookup id = some task ∧ task.targetState = .shutter .up)) ∧
      ((lit s.world.coils io.varDown = true ↔ valueAt s.outputMap id = some (.shutter .movingDown)) ∧
        (valueAt s.outputMap id = some (.shutter .movingDown) ↔
          ∃ task, s.waitTask.lookup id = some task ∧ task.targetState = .shutter .down))) ∧
    (∀ id ∈ s.waitTask, ∃ io, IsShutter s.outputMap id io) ∧
    ∀ id, Event.unexpectedTask id ∉ s.log ∧ Event.unknownTask id ∉ s.log := by
  have h := agree_run hd hnone h₀ hr
  have hup : ∀ v, Motion.ofValue v = .up ↔ v = some (.shutter .movingUp) := by
    intro v; unfold Motion.ofValue; split <;> simp_all
  have hdown : ∀ v, Motion.ofValue v = .down ↔ v = some (.shutter .movingDown) := by
    intro v; unfold Motion.ofValue; split <;> simp_all
  refine ⟨?_, ?_, fun id => ⟨?_, ?_⟩⟩
  · intro id io hs
    obtain ⟨motion, hm⟩ := h.shows id io hs
    refine ⟨⟨?_, hm.value_iff_task .movingUp .up hup fun x => by cases x <;> simp [Motion.target]⟩,
      ?_, hm.value_iff_task .movingDown .down hdown fun x => by cases x <;> simp [Motion.target]⟩
    · rw [hm.up, decide_eq_true_iff, ← hup, hm.value]
    · rw [hm.down, decide_eq_true_iff, ← hdown, hm.value]
  · intro id hid
    cases hl : s.waitTask.lookup id with
    | none => exact absurd hid (Finmap.lookup_eq_none.1 hl)
    | some task =>
      obtain ⟨io, hio⟩ := h.keys id task hl
      exact ⟨io, by rw [IsShutter, show kindOf s.outputMap = _ from h.kinds]; exact hio⟩
  · intro he
    exact h.calm _ he trivial
  · intro he
    exact h.calm _ he trivial

end

/-- The hypotheses are met by one shutter that is sent up. -/
theorem motors_moving_up :
    lit (blindsAfter (plcEnv 1000000 30) [setShutter .up]).world.coils blinds.varUp = true ↔
      valueAt (blindsAfter (plcEnv 1000000 30) [setShutter .up]).outputMap "blinds" = some (.shutter .movingUp) :=
  ((motors (m := oneShutter) (by decide) (fun id => by
    by_cases h : id = "blinds"
    · subst h; rfl
    · simp [valueAt, oneShutter, Finmap.lookup_insert_of_ne _ h]) (blinds_started 1000000)
    (show run _ _ [setShutter .up] = some _ from rfl)).1 "blinds" blinds rfl).1.1

end Calaos.Wago
