import Calaos.Motors
import Calaos.Snapshot
/-!
# The controller as its outputs side by side

A `Part` is what the controller has of one output: the coils, the value, the task, and what was broadcast for
it. With pairwise different coils the controller is no more than its parts. A command changes the part of its
output (`Outcome.apply`), the expiry branch changes each part by itself (`Part.expire`), and so does the first
loop (`Part.start`); none of them looks at another part, and no coil outside the parts is ever written.

Each of the three is stated at an instant: the one at which a task is made, or at which the expiry branch reads
the clock. Nothing else of the clock gets into a part.
-/
namespace Calaos.Wago

open Eff Runs

/-- The controller's state of one output. -/
@[ext] structure Part where
  coils : List Bool
  value : Option IOValue
  task : Option Task
  told : List IOValue

/-- What was broadcast for the output. -/
def toldOf (id : String) (log : List IOData) : List IOValue :=
  (log.filter fun d => decide (d.id = id)).map (·.value)

def St.part (s : St) (id : String) : Part where
  coils := (coilsAt s.outputMap id).map (lit s.world.coils)
  value := valueAt s.outputMap id
  task := s.tasks id
  told := toldOf id s.txFeedback

/-! ## Coils inside and outside -/

/-- Only these coils may differ. -/
def OnlyAt (coils : List UInt32) (c c' : Coils) : Prop := ∀ var, coilAddr var ∉ coils → lit c' var = lit c var

/-- An address is its own coil. -/
theorem coilAddr_idem (var : UInt32) : coilAddr (coilAddr var) = coilAddr var := by
  unfold coilAddr
  rw [UInt32.or_assoc, UInt32.or_self]

theorem lit_coilAddr (c : Coils) (var : UInt32) : lit c (coilAddr var) = lit c var := by
  unfold lit
  rw [coilAddr_idem]

theorem OnlyAt.refl (coils : List UInt32) (c : Coils) : OnlyAt coils c c := fun _ _ => rfl

theorem Sets.onlyAt {var : UInt32} {b : Bool} {c c' : Coils} (h : Sets var b c c') : OnlyAt [coilAddr var] c c' := by
  intro v hv
  rw [h.lit, if_neg (by simpa using hv)]

theorem Powers.onlyAt {io : WagoIOUpDown} {motion : Motion} {c c' : Coils} (h : Powers io motion c c') :
    OnlyAt [coilAddr io.varUp, coilAddr io.varDown] c c' := by
  intro v hv
  rw [List.mem_cons, List.mem_singleton, not_or] at hv
  exact h.other v hv.1 hv.2

section
variable {m : OutputContextMap} {id x : String} {kind : OutputKind} {c c' : Coils}

theorem mem_coilsAt {a : UInt32} (h : a ∈ coilsAt m id) : coilAddr a = a := by
  unfold coilsAt at h
  split at h
  · rename_i kind _
    cases kind with
    | woDigital io =>
      obtain rfl := List.mem_singleton.1 h
      exact coilAddr_idem _
    | woShutter io =>
      rcases List.mem_cons.1 h with rfl | h
      · exact coilAddr_idem _
      · obtain rfl := List.mem_singleton.1 h
        exact coilAddr_idem _
    | _ => cases h
  · cases h

theorem coilsAt_of_kind (h : kindOf m id = some kind) : coilsAt m id = coilsOf kind := by
  rw [coilsAt, h]

/-- What happens at the coils of one output leaves those of another alone. -/
theorem OnlyAt.other (hd : DistinctCoils m) (h : OnlyAt (coilsAt m id) c c') (hne : x ≠ id) :
    (coilsAt m x).map (lit c') = (coilsAt m x).map (lit c) := by
  refine List.map_congr_left ?_
  intro a ha
  refine h a ?_
  rw [mem_coilsAt ha]
  exact hd.2 x id hne ha

end

/-! ## One part -/

/-- What a command does to its output. A task is made at `now`. -/
def Outcome.apply (now : Nat) : Outcome → Part → Part
  | .ignore, part => part
  | .digital _ value, part => ⟨[value], some (.bool value), part.task, part.told ++ [.bool value]⟩
  | .start io mv, part =>
    ⟨[decide (mv.nextState = .movingUp), decide (mv.nextState = .movingDown)], some (.shutter mv.nextState),
      some ⟨now + io.time.toNanos, .shutter mv.targetState⟩, part.told ++ [.shutter mv.nextState]⟩
  | .halt _, part => ⟨[false, false], some (.shutter .up), none, part.told ++ [.shutter .up]⟩

/-- What the loop over `wait_task` does to an output, with the clock at `now`. -/
def Part.due (kind : Option OutputKind) (now : Nat) (part : Part) : Part :=
  match kind, part.task with
  | some (.woShutter _), some task =>
    if task.deadline ≤ now then
      { part with coils := [false, false], value := some task.targetState, told := part.told ++ [task.targetState] }
    else part
  | _, _ => part

theorem Part.due_of_none {part : Part} (h : part.task = none) (kind : Option OutputKind) (now : Nat) :
    part.due kind now = part := by
  unfold Part.due
  rw [h]
  cases kind with
  | none => rfl
  | some kind => cases kind <;> rfl

/-- What the expiry branch does to an output: a task that is due goes. -/
def Part.expire (kind : Option OutputKind) (now : Nat) (part : Part) : Part :=
  { part.due kind now with task := part.task.filter fun task => decide (task.deadline > now) }

/-- What the first loop does to an output; `plc` is what the PLC answers for a variable. -/
def Part.start (kind : Option OutputKind) (plc : UInt32 → Bool) (part : Part) : Part :=
  match kind with
  | some (.woDigital io) => { part with value := some (.bool (plc io.var)), told := part.told ++ [.bool (plc io.var)] }
  | some (.woShutter _) => { part with coils := [false, false], told := part.told ++ [.shutter .up] }
  | _ => part

theorem toldOf_append (id : String) (log : List IOData) (d : IOData) :
    toldOf id (log ++ [d]) = toldOf id log ++ if d.id = id then [d.value] else [] := by
  unfold toldOf
  by_cases h : d.id = id <;> simp [List.filter_append, h]

/-- The last of what was broadcast. -/
theorem getLast_toldOf (id : String) (log : List IOData) : (toldOf id log).getLast? = Snapshot.lastValue id log := by
  rw [toldOf, List.getLast?_map]
  rfl

section
variable {m : OutputContextMap} {s s' : St} {id : String} {kind : OutputKind} {value : IOValue}

/-- A change that concerns one output: its coils, its value and its task, and a broadcast for it. -/
theorem part_change (hd : DistinctCoils m) (hkinds : kindOf s.outputMap = kindOf m)
    (hkinds' : kindOf s'.outputMap = kindOf m) (hk : kindOf m id = some kind)
    (hc : OnlyAt (coilsOf kind) s.world.coils s'.world.coils)
    (hv : ∀ x, x ≠ id → valueAt s'.outputMap x = valueAt s.outputMap x)
    (ht : ∀ x, x ≠ id → s'.tasks x = s.tasks x) (htx : s'.txFeedback = s.txFeedback ++ [⟨id, value⟩]) :
    s'.part = Function.update s.part id ⟨(coilsOf kind).map (lit s'.world.coils), valueAt s'.outputMap id,
      s'.tasks id, (s.part id).told ++ [value]⟩ := by
  have hat : ∀ x, coilsAt s.outputMap x = coilsAt m x := by
    intro x
    rw [coilsAt, coilsAt, hkinds]
  have hat' : ∀ x, coilsAt s'.outputMap x = coilsAt m x := by
    intro x
    rw [coilsAt, coilsAt, hkinds']
  funext x
  by_cases hx : x = id
  · subst hx
    rw [Function.update_self]
    ext1
    · simp only [St.part, hat', coilsAt_of_kind hk]
    · rfl
    · rfl
    · simp only [St.part, htx, toldOf_append, if_pos]
  · have hc' : OnlyAt (coilsAt m id) s.world.coils s'.world.coils := by rwa [coilsAt_of_kind hk]
    rw [Function.update_of_ne hx]
    ext1
    · simp only [St.part, hat, hat']
      exact hc'.other hd hx
    · exact hv x hx
    · exact ht x hx
    · simp only [St.part, htx, toldOf_append, if_neg (Ne.symm hx), List.append_nil]

/-- The same with `update_state`. -/
theorem part_update (hd : DistinctCoils m) (hkinds : kindOf s.outputMap = kindOf m) (hk : kindOf m id = some kind)
    (hc : OnlyAt (coilsOf kind) s.world.coils s'.world.coils) (hmap : s'.outputMap = setValue s.outputMap id value)
    (htx : s'.txFeedback = s.txFeedback ++ [⟨id, value⟩]) (ht : ∀ x, x ≠ id → s'.tasks x = s.tasks x) :
    s'.part = Function.update s.part id
      ⟨(coilsOf kind).map (lit s'.world.coils), some value, s'.tasks id, (s.part id).told ++ [value]⟩ := by
  have hks : kindOf s.outputMap id = some kind := by rw [hkinds, hk]
  have hkinds' : kindOf s'.outputMap = kindOf m := by rw [hmap, kindOf_setValue, hkinds]
  have hv : ∀ x, x ≠ id → valueAt s'.outputMap x = valueAt s.outputMap x := by
    intro x hx
    rw [hmap, valueAt_setValue_ne hx]
  rw [part_change hd hkinds hkinds' hk hc hv ht htx, hmap, valueAt_setValue hks]

end

/-! ## When a task is made -/

section
attribute [local irreducible] u16TryFrom

theorem fromNow_exact (env : Env) (duration : Duration) (targetState : IOValue) (w : World) :
    wp (Task.fromNow env duration targetState)
      (fun task w' => w.now ≤ w'.now ∧ task = ⟨w'.now + duration.toNanos, targetState⟩) (fun _ _ => True) w := by
  simp only [Task.fromNow, wp_bind]
  refine wp_mono (instantNow_spec env w) ?_ fun _ _ _ => trivial
  rintro t w₁ ⟨hi, rfl⟩
  split
  · exact ⟨hi.now, rfl⟩
  · trivial

/-- The task of a movement is made at an instant during the call. -/
theorem startShutter_made (env : Env) (id : String) (io : WagoIOUpDown) (mv : Movement) (s : St) :
    wp (startShutter env id io mv)
      (fun _ s' => ∃ now, s.world.now ≤ now ∧ now ≤ s'.world.now ∧
        s'.tasks id = some ⟨now + io.time.toNanos, .shutter mv.targetState⟩)
      (fun _ _ => True) s := by
  rw [startShutter, wp_bind, wp_onWorld]
  refine wp_mono (stopShutter_spec (I := fun _ => True) env io (kept_true s.world) fun _ _ _ _ _ => trivial) ?_
    fun _ _ _ => trivial
  rintro _ w₁ ⟨_, _, n₁⟩
  rw [wp_bind, wp_onWorld, setVarOn]
  refine wp_mono (setVar_spec (I := fun _ => True) env _ true (kept_true w₁) fun _ _ => trivial) ?_
    fun _ _ _ => trivial
  rintro _ w₂ ⟨_, _, n₂⟩
  rw [wp_bind, wp_get, wp_bind, wp_emit, wp_bind, wp_onWorld]
  refine wp_mono (fromNow_exact env io.time _ w₂) ?_ fun _ _ _ => trivial
  rintro task w₃ ⟨n₃, rfl⟩
  rw [wp_bind, wp_modify]
  refine wp_mono (updateState_spec env id _ _) ?_ fun _ _ _ => trivial
  rintro _ s' ⟨w₄, i₄, rfl⟩
  exact ⟨w₃.now, Nat.le_trans n₁ (Nat.le_trans n₂ n₃), i₄.now, Finmap.lookup_insert _⟩

/-- A command that starts a movement runs that arm of the shutter branch. -/
theorem onCommand_start {env : Env} {s : St} {d : IODataAction} {io : WagoIOUpDown} {mv : Movement}
    (h : outcome s.outputMap d = .start io mv) :
    onCommand env d s = startShutter env d.id io mv { s with log := s.log ++ [received s d.id] } := by
  unfold outcome at h
  cases hl : s.outputMap.lookup d.id with
  | none => simp [hl] at h
  | some ctx =>
    simp only [hl, outcomeOf] at h
    cases hn : newValue ctx.value d.action with
    | none => simp [hn] at h
    | some value =>
      simp only [hn] at h
      cases hk : ctx.output.kind with
      | woShutter io' =>
        simp only [hk] at h
        cases hc : shutterCommand ctx.value value with
        | none => simp [hc] at h
        | some command =>
          simp only [hc, Outcome.start.injEq] at h
          obtain ⟨rfl, rfl⟩ := h
          have happly : applyValue env d.id ctx value = startShutter env d.id io' (movement io' command) := by
            rw [applyValue, hk]
            simp only [hc]
          have hrun : onCommand env d s = applyValue env d.id ctx value { s with log := s.log ++ [received s d.id] } := by
            simp only [onCommand, emit, get_bind_apply, modify_bind_apply, received, hl, hn]
          rw [hrun, happly]
      | woDigital io' => simp only [hk] at h; split at h <;> cases h
      | _ => simp [hk] at h

end

/-! ## A command -/

/-- `now` is the instant at which the command makes its task, if it makes one. -/
def MadeAt (now : Nat) (s : St) (d : IODataAction) (s' : St) : Prop :=
  ∀ io mv, outcome s.outputMap d = .start io mv →
    s'.tasks d.id = some ⟨now + io.time.toNanos, .shutter mv.targetState⟩

instance (now : Nat) (s : St) (d : IODataAction) (s' : St) : Decidable (MadeAt now s d s') :=
  decidable_of_iff ((match outcome s.outputMap d with
    | .start io mv => decide (s'.tasks d.id = some ⟨now + io.time.toNanos, .shutter mv.targetState⟩)
    | _ => true) = true) <| by
    unfold MadeAt
    cases outcome s.outputMap d <;> simp

section
variable {m : OutputContextMap} {env : Env} {s s' : St} {d : IODataAction} {id : String} {now : Nat}

theorem CmdEffect.forward {o : Outcome} (h : CmdEffect s id o s') : s.world.now ≤ s'.world.now := by
  cases o with
  | ignore =>
    cases h
    exact Nat.le_refl _
  | digital io value =>
    obtain ⟨w', _, hn, rfl⟩ := h
    exact hn
  | start io mv =>
    obtain ⟨w', c, t, deadline, _, _, hn, hn', _, rfl⟩ := h
    exact Nat.le_trans hn hn'
  | halt io =>
    obtain ⟨w', _, hn, rfl⟩ := h
    exact hn

/-- There is such an instant, and it is one of the turn. -/
theorem onCommand_madeAt (h : onCommand env d s = .ok () s') :
    ∃ now, s.world.now ≤ now ∧ now ≤ s'.world.now ∧ MadeAt now s d s' := by
  cases ho : outcome s.outputMap d with
  | start io mv =>
    rw [onCommand_start ho] at h
    obtain ⟨now, hn, hn', hmade⟩ := wp_ok (startShutter_made env d.id io mv _) h
    refine ⟨now, hn, hn', ?_⟩
    intro io' mv' ho'
    rw [ho] at ho'
    cases ho'
    exact hmade
  | _ =>
    have he := (wp_ok (onCommand_spec env d (safe_true _) (kept_true s.world)) h).2
    refine ⟨s.world.now, Nat.le_refl _, CmdEffect.forward he, ?_⟩
    intro io mv hs
    rw [ho] at hs
    cases hs

/-- **A command changes its own output only**, and what becomes of that depends on nothing else. -/
theorem command_parts (hd : DistinctCoils m) (hkinds : kindOf s.outputMap = kindOf m)
    (he : CmdEffect s d.id (outcome s.outputMap d) s') (hmade : MadeAt now s d s') :
    s'.part = Function.update s.part d.id ((outcome s.outputMap d).apply now (s.part d.id)) ∧
    OnlyAt (coilsAt m d.id) s.world.coils s'.world.coils := by
  have hfor := outcome_for s.outputMap d
  rw [hkinds] at hfor
  unfold MadeAt at hmade
  cases ho : outcome s.outputMap d with
  | ignore =>
    rw [ho] at he
    cases he
    refine ⟨?_, OnlyAt.refl _ _⟩
    rw [Outcome.apply, Function.update_eq_self]
    rfl
  | digital io b =>
    rw [ho] at he hfor
    have hk : kindOf m d.id = some (.woDigital io) := hfor
    obtain ⟨w', hc, _, rfl⟩ := he
    rw [coilsAt_of_kind hk]
    refine ⟨?_, hc.onlyAt⟩
    refine Eq.trans (part_update hd hkinds hk hc.onlyAt rfl rfl fun _ _ => rfl) ?_
    simp only [coilsOf, List.map_cons, List.map_nil, hc.lit, coilAddr_idem, if_true, Outcome.apply]
    rfl
  | halt io =>
    rw [ho] at he hfor
    have hk : kindOf m d.id = some (.woShutter io) := hfor
    obtain ⟨w', hc, _, rfl⟩ := he
    have hp := hc.powers
    rw [coilsAt_of_kind hk]
    refine ⟨?_, hp.onlyAt⟩
    refine Eq.trans (part_update hd hkinds hk hp.onlyAt rfl rfl fun x hx => Finmap.lookup_erase_ne hx) ?_
    simp only [coilsOf, List.map_cons, List.map_nil, lit_coilAddr, hp.up, hp.down, Outcome.apply, St.tasks,
      Finmap.lookup_erase]
    rfl
  | start io mv =>
    rw [ho] at he hfor
    obtain ⟨hk, command, rfl⟩ := hfor
    have hmade' := hmade io _ ho
    obtain ⟨w', c, t, deadline, hst, hon, _, _, _, rfl⟩ := he
    have hp := hst.powers_on (hd.own hk) hon
    rw [coilsAt_of_kind hk]
    refine ⟨?_, hp.onlyAt⟩
    refine Eq.trans (part_update hd hkinds hk hp.onlyAt rfl rfl fun x hx => Finmap.lookup_insert_of_ne _ hx) ?_
    rw [hmade']
    simp only [coilsOf, List.map_cons, List.map_nil, lit_coilAddr, hp.up, hp.down, Outcome.apply]
    cases command <;> rfl

/-- What becomes of a command for an output depends on the value of this output. -/
theorem outcome_congr {om om' : OutputContextMap} {d : IODataAction} (hk : kindOf om d.id = kindOf om' d.id)
    (hv : valueAt om d.id = valueAt om' d.id) : outcome om d = outcome om' d := by
  unfold kindOf at hk
  unfold valueAt at hv
  unfold outcome
  cases hl : om.lookup d.id with
  | none =>
    cases hl' : om'.lookup d.id with
    | none => rfl
    | some ctx' => simp [hl, hl'] at hk
  | some ctx =>
    cases hl' : om'.lookup d.id with
    | none => simp [hl, hl'] at hk
    | some ctx' =>
      simp only [hl, hl', Option.map_some, Option.some.injEq, Option.bind_some] at hk hv
      simp only [outcomeOf, hk, hv]

/-! ## Expiry -/

/-- The body of the loop over `wait_task`. -/
theorem expireTask_parts (hd : DistinctCoils m) (hkinds : kindOf s.outputMap = kindOf m)
    (he : ExpireEffect now s id s') :
    s'.part = Function.update s.part id ((s.part id).due (kindOf m id) now) ∧
    OnlyAt (coilsAt m id) s.world.coils s'.world.coils := by
  have hsame : (s.part id).due (kindOf m id) now = s.part id →
      s.part = Function.update s.part id ((s.part id).due (kindOf m id) now) := by
    intro h
    rw [h, Function.update_eq_self]
  cases he with
  | absent hl =>
    have ht : (s.part id).task = none := hl
    exact ⟨hsame (Part.due_of_none ht _ _), OnlyAt.refl _ _⟩
  | later task hl hlt =>
    refine ⟨hsame ?_, OnlyAt.refl _ _⟩
    have ht : (s.part id).task = some task := hl
    unfold Part.due
    rw [ht]
    cases kindOf m id with
    | none => rfl
    | some kind =>
      cases kind with
      | woShutter io => exact if_neg (by omega)
      | _ => rfl
  | due task io w' hl hle hkind hc _ =>
    have ht : (s.part id).task = some task := hl
    rw [hkinds] at hkind
    have hp := hc.powers
    rw [coilsAt_of_kind hkind]
    refine ⟨?_, hp.onlyAt⟩
    refine Eq.trans (part_update hd hkinds hkind hp.onlyAt rfl rfl fun x _ => rfl) ?_
    simp only [coilsOf, List.map_cons, List.map_nil, lit_coilAddr, hp.up, hp.down, Part.due, hkind, ht, hle, if_true]
    rw [← ht]
    rfl
  | unknown task hl hkind =>
    rw [hkinds] at hkind
    refine ⟨hsame ?_, OnlyAt.refl _ _⟩
    rw [hkind]
    rfl
  | unexpected task kind hl hkind hns =>
    rw [hkinds] at hkind
    refine ⟨hsame ?_, OnlyAt.refl _ _⟩
    rw [hkind]
    cases kind with
    | woShutter io => exact absurd rfl (hns io)
    | _ => rfl

/-- Only coils of the outputs may differ. -/
def Outside (m : OutputContextMap) (c c' : Coils) : Prop :=
  ∀ var, (∀ id, coilAddr var ∉ coilsAt m id) → lit c' var = lit c var

theorem OnlyAt.outside {c c' : Coils} (h : OnlyAt (coilsAt m id) c c') : Outside m c c' :=
  fun var hv => h var (hv id)

theorem Outside.trans {a b c : Coils} (h : Outside m a b) (h' : Outside m b c) : Outside m a c :=
  fun var hv => (h' var hv).trans (h var hv)

/-- The loop visits each output once, and it does not matter when. -/
theorem expireTasks_parts (hd : DistinctCoils m) {ids : List String} (he : ExpireAll now s ids s') :
    kindOf s.outputMap = kindOf m → ids.Nodup →
    (∀ x, s'.part x = if x ∈ ids then (s.part x).due (kindOf m x) now else s.part x) ∧
    Outside m s.world.coils s'.world.coils ∧ s'.waitTask = s.waitTask := by
  induction he with
  | nil s => exact fun _ _ => ⟨fun x => by simp, fun _ _ => rfl, rfl⟩
  | @cons s t u id ids hx _ ih =>
    intro hkinds hn
    obtain ⟨hnot, hn⟩ := List.nodup_cons.1 hn
    obtain ⟨hparts, honly⟩ := expireTask_parts hd hkinds hx
    obtain ⟨hrest, hout, hw⟩ := ih (hx.kindOf.trans hkinds) hn
    refine ⟨?_, honly.outside.trans hout, hw.trans hx.waitTask⟩
    intro x
    rw [hrest, hparts]
    by_cases hxid : x = id
    · subst hxid
      simp [hnot]
    · simp [hxid]

/-- What a look at the clock shows. -/
def clockAt (env : Env) (w : World) : Nat := w.now + env.delay w.tick

theorem instantNow_clockAt (env : Env) (w : World) :
    wp (instantNow env) (fun now w' => now = clockAt env w ∧ Idle w w') (fun _ _ => False) w := by
  refine wp_mono (wp_and (Q := fun now _ => now = clockAt env w) (E := fun _ _ => False) ?_ (instantNow_spec env w))
    (fun _ _ h => ⟨h.1, h.2.1⟩) fun _ _ h => h.1
  simp only [instantNow, elapse, wp_bind, wp_modify, wp_get, wp_pure, clockAt]
  omega

/-- **The expiry branch changes each output by itself**: the order of the loop does not show. -/
theorem onExpiry_parts (hd : DistinctCoils m) (hkinds : kindOf s.outputMap = kindOf m) {order : List String}
    (ho : HMap.Enumerates order s.waitTask) (h : onExpiry env order s = .ok () s') :
    (∀ x, s'.part x = (s.part x).expire (kindOf m x) (clockAt env s.world)) ∧
    Outside m s.world.coils s'.world.coils := by
  have hspec : wp (onExpiry env order)
      (fun _ s' => ∃ w t, Idle s.world w ∧ ExpireAll (clockAt env s.world) { s with world := w } order t ∧
        s' = { t with waitTask := t.waitTask.retain fun _ task => task.deadline > clockAt env s.world })
      (fun _ _ => True) s := by
    rw [onExpiry, wp_bind, wp_onWorld]
    refine wp_mono (instantNow_clockAt env s.world) ?_ fun _ _ h => h.elim
    rintro _ w ⟨rfl, hi⟩
    rw [wp_bind]
    refine wp_mono (expireTasks_spec env _ order { s with world := w } (safe_true _) (kept_true w)) ?_
      fun _ _ _ => trivial
    intro _ t ht
    exact ⟨w, t, hi, ht.2, rfl⟩
  obtain ⟨w, t, hi, ha, rfl⟩ := wp_ok hspec h
  obtain ⟨hparts, hout, hw⟩ := expireTasks_parts hd ha hkinds ho.1
  have hs : ({ s with world := w } : St).part = s.part := by
    funext x
    ext1 <;> simp only [St.part, hi.coils]
  refine ⟨?_, by rw [← hi.coils]; exact hout⟩
  intro x
  have hx := hparts x
  rw [hs] at hx
  have htask : (s.part x).task = s.waitTask.lookup x := rfl
  have hdue : t.part x = (s.part x).due (kindOf m x) (clockAt env s.world) := by
    rw [hx]
    split
    · rfl
    · rename_i hnot
      have hnone : (s.part x).task = none := by
        rw [htask]
        exact Finmap.lookup_eq_none.2 fun hmem => hnot ((ho.2 x).2 hmem)
      exact (Part.due_of_none hnone _ _).symm
  unfold Part.expire
  rw [← hdue, htask]
  ext1
  · rfl
  · rfl
  · simp only [St.part, St.tasks, HMap.lookup_retain, hw]
  · rfl

end

/-! ## The first loop -/

/-- In `s`, a read of the variable of the output gives what `plc` says. -/
def ReadsAs (plc : Coils → UInt32 → Bool) (env : Env) (id : String) (s : St) : Prop :=
  ∀ io value w', kindOf s.outputMap id = some (.woDigital io) → readVar env io.var s.world = .ok value w' →
    value = plc s.world.coils io.var

/-- So does every read of the first loop, at the time at which it is made. -/
def AllRead (plc : Coils → UInt32 → Bool) (env : Env) : List String → St → Prop
  | [], _ => True
  | id :: ids, s => ReadsAs plc env id s ∧ ∀ s', startOutput env id s = .ok () s' → AllRead plc env ids s'

instance (plc : Coils → UInt32 → Bool) (env : Env) (id : String) (s : St) : Decidable (ReadsAs plc env id s) :=
  match hk : kindOf s.outputMap id with
  | some (.woDigital io) =>
    match hr : readVar env io.var s.world with
    | .ok value _ =>
      decidable_of_iff (value = plc s.world.coils io.var) <| by
        unfold ReadsAs
        rw [hk]
        constructor
        · rintro hv io' value' w' ⟨⟩ hr'
          cases hr.symm.trans hr'
          exact hv
        · intro h
          exact h io value _ rfl hr
    | .error _ _ => isTrue <| by
        unfold ReadsAs
        rw [hk]
        rintro io' value' w' ⟨⟩ hr'
        cases hr.symm.trans hr'
  | some (.woShutter _) => isTrue fun _ _ _ hk' => by cases hk.symm.trans hk'
  | some .hueOutputLightRGB => isTrue fun _ _ _ hk' => by cases hk.symm.trans hk'
  | some .mySensorsOutputShutterSmart => isTrue fun _ _ _ hk' => by cases hk.symm.trans hk'
  | none => isTrue fun _ _ _ hk' => by cases hk.symm.trans hk'

instance decidableAllRead (plc : Coils → UInt32 → Bool) (env : Env) :
    (ids : List String) → (s : St) → Decidable (AllRead plc env ids s)
  | [], _ => inferInstanceAs (Decidable True)
  | id :: ids, s =>
    match h : startOutput env id s with
    | .ok () s' =>
      have := decidableAllRead plc env ids s'
      decidable_of_iff (ReadsAs plc env id s ∧ AllRead plc env ids s') <| by simp [AllRead, h]
    | .error _ _ => decidable_of_iff (ReadsAs plc env id s) <| by simp [AllRead, h]

/-- What is read for a variable depends on its coil at most. -/
def Local (plc : Coils → UInt32 → Bool) : Prop := ∀ c c' var, lit c var = lit c' var → plc c var = plc c' var

section
variable {m : OutputContextMap} {env : Env} {s s' : St} {id : String} {plc : Coils → UInt32 → Bool}

attribute [local irreducible] u16TryFrom

/-- The body of the first loop. -/
theorem startOutput_parts (hd : DistinctCoils m) (hkinds : kindOf s.outputMap = kindOf m) (hread : ReadsAs plc env id s)
    (h : startOutput env id s = .ok () s') :
    s'.part = Function.update s.part id ((s.part id).start (kindOf m id) (plc s.world.coils)) ∧
    OnlyAt (coilsAt m id) s.world.coils s'.world.coils ∧ kindOf s'.outputMap = kindOf m := by
  have hk : kindOf m id = (s.outputMap.lookup id).map (·.output.kind) := by rw [← hkinds]; rfl
  have hskip : ∀ t : St, (∀ io, kindOf m id ≠ some (.woDigital io)) → (∀ io, kindOf m id ≠ some (.woShutter io)) →
      t = s → t.part = Function.update s.part id ((s.part id).start (kindOf m id) (plc s.world.coils)) ∧
        OnlyAt (coilsAt m id) s.world.coils t.world.coils ∧ kindOf t.outputMap = kindOf m := by
    rintro t hnd hns rfl
    refine ⟨?_, OnlyAt.refl _ _, hkinds⟩
    have hstart : (t.part id).start (kindOf m id) (plc t.world.coils) = t.part id := by
      unfold Part.start
      split
      · rename_i io hio
        exact absurd hio (hnd io)
      · rename_i io hio
        exact absurd hio (hns io)
      · rfl
    rw [hstart, Function.update_eq_self]
  refine wp_ok (E := fun _ _ => True) (Q := fun _ t => t.part = Function.update s.part id
    ((s.part id).start (kindOf m id) (plc s.world.coils)) ∧ OnlyAt (coilsAt m id) s.world.coils t.world.coils ∧
    kindOf t.outputMap = kindOf m) ?_ h
  simp only [startOutput, wp_bind, wp_get]
  cases hl : s.outputMap.lookup id with
  | none => exact hskip s (by simp [hk, hl]) (by simp [hk, hl]) rfl
  | some context =>
    rw [hl, Option.map_some] at hk
    simp only
    cases hko : context.output.kind with
    | hueOutputLightRGB => exact hskip s (by simp [hk, hko]) (by simp [hk, hko]) rfl
    | mySensorsOutputShutterSmart => exact hskip s (by simp [hk, hko]) (by simp [hk, hko]) rfl
    | woDigital wio =>
      rw [hko] at hk
      rw [wp_bind, wp_onWorld]
      have hvalue : wp (readVar env wio.var) (fun value _ => value = plc s.world.coils wio.var) (fun _ _ => True)
          s.world := by
        unfold wp
        cases hr : readVar env wio.var s.world with
        | ok value w' => exact hread wio value w' (by rw [hkinds, hk]) hr
        | error _ _ => trivial
      refine wp_mono (wp_and hvalue (readVar_spec env wio.var s.world)) ?_ fun _ _ _ => trivial
      rintro value w₁ ⟨rfl, h₁⟩
      refine wp_mono (updateState_spec env id _ { s with world := w₁ }) ?_ fun _ _ _ => trivial
      rintro _ s' ⟨w₂, h₂, rfl⟩
      have hidle : w₂.coils = s.world.coils := (h₁.trans h₂).coils
      refine ⟨?_, ?_, (kindOf_setValue _ _ _).trans hkinds⟩
      · refine Eq.trans (part_update hd hkinds hk ?_ rfl rfl fun _ _ => rfl) ?_
        · simp only [hidle]
          exact OnlyAt.refl _ _
        · rw [hk]
          simp only [hidle, Part.start]
          rw [← coilsAt_of_kind (show kindOf s.outputMap id = _ by rw [hkinds, hk])]
          rfl
      · simp only [hidle]
        exact OnlyAt.refl _ _
    | woShutter io =>
      rw [hko] at hk
      rw [wp_bind, wp_onWorld]
      refine wp_mono (stopShutter_spec (I := fun _ => True) env io (kept_true s.world) fun _ _ _ _ _ => trivial)
        ?_ fun _ _ _ => trivial
      rintro _ w₁ ⟨_, h₁, _⟩
      refine wp_mono (sendFeedback_spec env ⟨id, .shutter .up⟩ { s with world := w₁ }) ?_ fun _ _ _ => trivial
      rintro _ s' ⟨w₂, h₂, rfl⟩
      have hc : Stopped io s.world.coils w₂.coils := by rw [h₂.coils]; exact h₁
      have hp := hc.powers
      rw [coilsAt_of_kind hk]
      refine ⟨?_, hp.onlyAt, hkinds⟩
      refine Eq.trans (part_change hd hkinds hkinds hk hp.onlyAt (fun _ _ => rfl) (fun _ _ => rfl) rfl) ?_
      simp only [coilsOf, List.map_cons, List.map_nil, lit_coilAddr, hp.up, hp.down, hk, Part.start]
      rfl

/-- What happens at one output does not change what is read for another. -/
theorem Local.start (hloc : Local plc) (hd : DistinctCoils m) {c c' : Coils} (hc : OnlyAt (coilsAt m id) c c')
    {x : String} (hx : x ≠ id) (part : Part) : part.start (kindOf m x) (plc c') = part.start (kindOf m x) (plc c) := by
  cases hk : kindOf m x with
  | none => rfl
  | some kind =>
    cases kind with
    | woDigital io =>
      have hlit : lit c' io.var = lit c io.var := by
        refine hc io.var ?_
        refine hd.2 x id hx ?_
        rw [coilsAt_of_kind hk]
        exact List.mem_singleton_self _
      simp only [Part.start, hloc c' c io.var hlit]
    | _ => rfl

/-- **The first loop changes each output by itself.** -/
theorem startup_parts (hd : DistinctCoils m) (hloc : Local plc) : ∀ (ids : List String) (s : St),
    kindOf s.outputMap = kindOf m → ids.Nodup → AllRead plc env ids s → startup env ids s = .ok () s' →
    (∀ x, s'.part x = if x ∈ ids then (s.part x).start (kindOf m x) (plc s.world.coils) else s.part x) ∧
    Outside m s.world.coils s'.world.coils ∧ kindOf s'.outputMap = kindOf m
  | [], s, hkinds, _, _, h => by
    cases h
    exact ⟨fun x => by simp, fun _ _ => rfl, hkinds⟩
  | id :: ids, s, hkinds, hn, hread, h => by
    obtain ⟨hnot, hn⟩ := List.nodup_cons.1 hn
    cases ht : startOutput env id s with
    | error e t => simp [startup, bind, EStateM.bind, ht] at h
    | ok u t =>
      have hrest : startup env ids t = .ok () s' := by simpa [startup, bind, EStateM.bind, ht] using h
      obtain ⟨hparts, honly, hkt⟩ := startOutput_parts hd hkinds hread.1 ht
      obtain ⟨hall, hout, hks⟩ := startup_parts hd hloc ids t hkt hn (hread.2 t ht) hrest
      refine ⟨?_, honly.outside.trans hout, hks⟩
      intro x
      rw [hall, hparts]
      by_cases hx : x = id
      · subst hx
        simp [hnot]
      · simp [hx, hloc.start hd honly hx]

end

/-! ## Runs -/

theorem run_kinds {m : OutputContextMap} {env : Env} {w : World} {s₀ s : St} {ls : List Label}
    (h₀ : Started env w m s₀) (hr : run (step env) s₀ ls = some s) : kindOf s.outputMap = kindOf m :=
  run_invariant (step env) (I := fun t => kindOf t.outputMap = kindOf m)
    (fun _ _ _ hi h => (Effect.kindOf (step_spec h).2).trans hi) h₀.ready.kinds hr

/-! ## A house with a lamp and two shutters -/

/-- A switch of a lamp. -/
def lamp : WagoIO := ⟨"wago", "502", 5⟩

/-- A shutter that moves for five seconds. -/
def awning : WagoIOUpDown := ⟨"wago", "502", 3, 4, .fromSecs 5⟩

/-- The entries of `output_map`. -/
def threeOutputs : OutputContextMap :=
  (oneShutter.insert "awning" ⟨⟨"Awning", "awning", "", .woShutter awning, "", true, true⟩, none⟩).insert
    "lamp" ⟨⟨"Lamp", "lamp", "", .woDigital lamp, "", true, true⟩, none⟩

/-- A piece of `run` came to its end without an error. -/
def succeeds : EStateM.Result Fault St Unit → Bool
  | .ok _ _ => true
  | .error _ _ => false

theorem eq_ok {r : EStateM.Result Fault St Unit} (h : succeeds r = true) : r = .ok () (stateAfter r) := by
  cases r with
  | ok a s => rfl
  | error e s => cases h

theorem step_stateAfter {env : Env} {s : St} {l : Label} (hl : enabled s l) (h : succeeds (iteration env l s) = true) :
    step env s l = some (stateAfter (iteration env l s)) :=
  step_eq_some.2 ⟨hl, eq_ok h⟩

/-- The state in which its main loop starts, the outputs having been visited in this order. -/
def threeStart : St := stateAfter (startup (plcEnv 0 100) ["lamp", "blinds", "awning"] (init idleWorld threeOutputs))

theorem three_started : Started (plcEnv 0 100) idleWorld threeOutputs threeStart :=
  ⟨["lamp", "blinds", "awning"], by decide +kernel, eq_ok (by decide +kernel)⟩

end Calaos.Wago
