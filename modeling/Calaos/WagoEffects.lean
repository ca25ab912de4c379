import Calaos.WagoModbus
/-!
# What one turn of the Wago controller does

One lemma for each function of the controller, and nothing below unfolds the code again. Each states
the whole effect of a success (`CmdEffect`, `ExpireEffect`), and at the same time that a predicate on
coil images which survives the writes the controller is meant to make (`Safe`) holds after every
single write, failing ones included (`Kept`).

Coils are spoken of by variable: `lit c var` is the coil `set_var` addresses for `var`, and two
variables share a coil when `var | 0x1000` is the same number.
-/
namespace Calaos.Wago

open Eff

/-- The coil address of a variable, as a number. -/
def coilAddr (var : UInt32) : UInt32 := var ||| 0x1000

/-- Whether the coil of `var` is on. A variable without a coil is never on. -/
def lit (c : Coils) (var : UInt32) : Bool :=
  match u16TryFrom (coilAddr var) with
  | some address => c address
  | none => false

theorem u16TryFrom_inj {x y : UInt32} {a : UInt16} (hx : u16TryFrom x = some a)
    (hy : u16TryFrom y = some a) : x = y := by
  unfold u16TryFrom at hx hy
  split at hx <;> simp only [reduceCtorEq, Option.some.injEq] at hx
  split at hy <;> simp only [reduceCtorEq, Option.some.injEq] at hy
  rename_i h₁ h₂
  have h : x.toUInt16.toNat = y.toUInt16.toNat := by rw [hx, hy]
  simp only [UInt32.toNat_toUInt16] at h
  rw [← UInt32.toNat_inj]
  omega

/-- `c'` is `c` with the coil of `var` set to `value`. -/
structure Sets (var : UInt32) (value : Bool) (c c' : Coils) : Prop where
  valid : (u16TryFrom (coilAddr var)).isSome
  lit : ∀ v, lit c' v = if coilAddr v = coilAddr var then value else lit c v

theorem sets_update {var : UInt32} {a : UInt16} (h : u16TryFrom (coilAddr var) = some a) (value : Bool)
    (c : Coils) : Sets var value c (Function.update c a value) := by
  refine ⟨by rw [h]; rfl, ?_⟩
  intro v
  unfold lit
  cases hv : u16TryFrom (coilAddr v) with
  | none =>
    have hne : coilAddr v ≠ coilAddr var := by rintro e; rw [e, h] at hv; cases hv
    simp [hne]
  | some b =>
    by_cases hb : b = a
    · subst hb
      simp [u16TryFrom_inj hv h]
    · have hne : coilAddr v ≠ coilAddr var := by
        rintro e; rw [e, h] at hv; cases hv; exact hb rfl
      simp [hne, hb]

/-- `c'` is `c` with both coils of a shutter off. -/
def Stopped (io : WagoIOUpDown) (c c' : Coils) : Prop :=
  ∀ v, lit c' v = if coilAddr v = coilAddr io.varUp ∨ coilAddr v = coilAddr io.varDown then false else lit c v

theorem Sets.stopped {io : WagoIOUpDown} {a b c : Coils} (h : Sets io.varDown false a b)
    (h' : Sets io.varUp false b c) : Stopped io a c := by
  intro v
  rw [h'.lit, h.lit]
  by_cases h₁ : coilAddr v = coilAddr io.varUp <;> by_cases h₂ : coilAddr v = coilAddr io.varDown <;>
    simp [h₁, h₂]

/-! ## Coil images kept along a run -/

/-- `I` holds of the coils now and held after every write since the `n`-th. -/
structure Kept (I : Coils → Prop) (n : Nat) (w : World) : Prop where
  from_ : n ≤ w.writes.length
  coils : I w.coils
  after : ∀ r ∈ w.writes.drop n, I r.after

section
variable {I : Coils → Prop} {n : Nat} {w w' : World}

theorem Kept.idle (h : Kept I n w) (hi : Idle w w') : Kept I n w' :=
  ⟨by rw [hi.writes]; exact h.from_, by rw [hi.coils]; exact h.coils, by rw [hi.writes]; exact h.after⟩

theorem Kept.wrote {r : WriteRec} (h : Kept I n w) (hw : Wrote r w w') (hr : I r.after) : Kept I n w' := by
  refine ⟨by rw [hw.writes]; simp; have := h.from_; omega, by rw [hw.coils]; exact hr, ?_⟩
  intro x hx
  rw [hw.writes, List.drop_append_of_le_length h.from_, List.mem_append, List.mem_singleton] at hx
  rcases hx with hx | rfl
  · exact h.after x hx
  · exact hr

/-- A world where only the present counts. -/
theorem kept_true (w : World) : Kept (fun _ => True) w.writes.length w :=
  ⟨Nat.le_refl _, trivial, fun _ _ => trivial⟩

/-! ## Helpers of the controller -/

/-- **`set_var`**. -/
theorem setVar_spec (env : Env) (var : UInt32) (value : Bool) (hk : Kept I n w)
    (hI : ∀ c', Sets var value w.coils c' → I c') :
    wp (setVar env var value)
      (fun _ w' => Kept I n w' ∧ Sets var value w.coils w'.coils ∧ w.now ≤ w'.now)
      (fun _ w' => Kept I n w') w := by
  unfold setVar
  split
  · rename_i a ha
    have hs : Sets var value w.coils _ := sets_update ha value w.coils
    refine wp_mono (writeSingleCoil_spec env a value w) ?_ ?_
    · intro _ w' h
      obtain ⟨r, hr, hra⟩ := h
      have hc : Sets var value w.coils r.after := by rw [hra]; exact hs
      exact ⟨hk.wrote hr (hI _ hc), by rw [hr.coils]; exact hc, hr.now⟩
    · intro _ w' h
      obtain ⟨r, hr, hra | hra⟩ := h
      · exact hk.wrote hr (hI _ (by rw [hra]; exact hs))
      · exact hk.wrote hr (by rw [hra]; exact hk.coils)
  · exact hk

/-- **`stop_shutter`**: down first, then up. -/
theorem stopShutter_spec (env : Env) (io : WagoIOUpDown) (hk : Kept I n w)
    (hoff : ∀ var c c', I c → Sets var false c c' → I c') :
    wp (stopShutter env io)
      (fun _ w' => Kept I n w' ∧ Stopped io w.coils w'.coils ∧ w.now ≤ w'.now)
      (fun _ w' => Kept I n w') w := by
  simp only [stopShutter, setVarOff, wp_bind]
  refine wp_mono (setVar_spec env io.varDown false hk fun c' => hoff _ _ c' hk.coils) ?_
    fun _ _ h => h
  intro _ w₁ h₁
  obtain ⟨k₁, s₁, n₁⟩ := h₁
  refine wp_mono (setVar_spec env io.varUp false k₁ fun c' => hoff _ _ c' k₁.coils) ?_
    fun _ _ h => h
  intro _ w₂ h₂
  obtain ⟨k₂, s₂, n₂⟩ := h₂
  exact ⟨k₂, s₁.stopped s₂, Nat.le_trans n₁ n₂⟩

theorem readVar_spec (env : Env) (var : UInt32) (w : World) :
    wp (readVar env var) (fun _ w' => Idle w w') (fun _ w' => Idle w w') w := by
  unfold readVar
  split
  · exact readDiscreteInput_spec env _ w
  · exact Idle.refl w

theorem modbusKeepAlive_spec (env : Env) (w : World) :
    wp (modbusKeepAlive env) (fun _ w' => Idle w w') (fun _ w' => Idle w w') w := by
  simp only [modbusKeepAlive, wp_bind]
  exact wp_mono (readDiscreteInputs_spec env 0 1 w) (fun _ _ h => h) fun _ _ h => h

/-- `Task::from_now`: the deadline is at least `duration` after the call. -/
theorem fromNow_spec (env : Env) (duration : Duration) (targetState : IOValue) (w : World) :
    wp (Task.fromNow env duration targetState)
      (fun t w' => Idle w w' ∧ t.targetState = targetState ∧ w.now + duration.toNanos ≤ t.deadline)
      (fun _ w' => Idle w w') w := by
  simp only [Task.fromNow, wp_bind]
  refine wp_mono (instantNow_spec env w) ?_ fun _ _ h => h.elim
  intro t w₁ h₁
  obtain ⟨hi, rfl⟩ := h₁
  split
  · exact ⟨hi, rfl, by have := hi.now; simp only; omega⟩
  · exact hi

end

/-! ## Helpers that report -/

/-- `s'` is `s` after some idling and one value broadcast. -/
def Reported (data : IOData) (s s' : St) : Prop :=
  ∃ w', Idle s.world w' ∧ s' = { s with world := w', txFeedback := s.txFeedback ++ [data] }

theorem sendFeedback_spec (env : Env) (data : IOData) (s : St) :
    wp (sendFeedback env data) (fun _ s' => Reported data s s') (fun _ s' => Idle s.world s'.world) s := by
  simp only [sendFeedback, onWorld, wp_bind, wp_zoom, wp_get]
  refine wp_mono (elapse_spec env 0 s.world) ?_ fun _ _ h => h.elim
  intro _ w₁ h₁
  split
  · exact ⟨w₁, h₁, rfl⟩
  · exact h₁

/-- The context of `id` with a new value. -/
def setValue (m : OutputContextMap) (id : String) (value : IOValue) : OutputContextMap :=
  m.modify id fun ctx => { ctx with value := some value }

/-- **`update_state`**: both copies of the state, the context's and the broadcast one. -/
theorem updateState_spec (env : Env) (id : String) (value : IOValue) (s : St) :
    wp (updateState env id value)
      (fun _ s' => Reported ⟨id, value⟩ { s with outputMap := setValue s.outputMap id value } s')
      (fun _ s' => Idle s.world s'.world) s := by
  simp only [updateState, wp_bind, wp_modify]
  exact sendFeedback_spec env ⟨id, value⟩ _

/-! ## Commands -/

/-- What a command is for: the cases of `onCommand`. -/
inductive Outcome where
  | ignore
  | digital (io : WagoIO) (value : Bool)
  | start (io : WagoIOUpDown) (mv : Movement)
  | halt (io : WagoIOUpDown)

/-- The case a command falls in, from the context of its output. -/
def outcomeOf (ctx : OutputContext) (action : IOAction) : Outcome :=
  match newValue ctx.value action with
  | none => .ignore
  | some value =>
    match ctx.output.kind with
    | .woDigital io =>
      match value with
      | some (.bool b) => .digital io b
      | _ => .ignore
    | .woShutter io =>
      match shutterCommand ctx.value value with
      | some command => .start io (movement io command)
      | none => .halt io
    | _ => .ignore

def outcome (m : OutputContextMap) (d : IODataAction) : Outcome :=
  match m.lookup d.id with
  | none => .ignore
  | some ctx => outcomeOf ctx d.action

/-- The first thing a command leaves in the log. -/
def received (s : St) (id : String) : Event := .command id (s.waitTask.lookup id).isSome

/-- Everything a successful command changes, case by case. -/
def CmdEffect (s : St) (id : String) : Outcome → St → Prop
  | .ignore, s' => s' = { s with log := s.log ++ [received s id] }
  | .digital io value, s' => ∃ w', Sets io.var value s.world.coils w'.coils ∧ s.world.now ≤ w'.now ∧
      s' = { s with
        world := w'
        outputMap := setValue s.outputMap id (.bool value)
        txFeedback := s.txFeedback ++ [⟨id, .bool value⟩]
        log := s.log ++ [received s id] }
  | .start io mv, s' => ∃ w' c t deadline, Stopped io s.world.coils c ∧
      Sets mv.varOn true c w'.coils ∧ s.world.now ≤ t ∧ t ≤ w'.now ∧
      t + io.time.toNanos ≤ deadline ∧
      s' = { s with
        world := w'
        outputMap := setValue s.outputMap id (.shutter mv.nextState)
        waitTask := s.waitTask.insert id ⟨deadline, .shutter mv.targetState⟩
        txFeedback := s.txFeedback ++ [⟨id, .shutter mv.nextState⟩]
        log := s.log ++ [received s id] ++ [.started id mv.targetState t] }
  | .halt io, s' => ∃ w', Stopped io s.world.coils w'.coils ∧ s.world.now ≤ w'.now ∧
      s' = { s with
        world := w'
        outputMap := setValue s.outputMap id (.shutter .up)
        waitTask := s.waitTask.erase id
        txFeedback := s.txFeedback ++ [⟨id, .shutter .up⟩]
        log := s.log ++ [received s id] }

/-- The kind of the output handled under `id`. -/
def kindOf (m : OutputContextMap) (id : String) : Option OutputKind := (m.lookup id).map (·.output.kind)

/-- A predicate on coil images that every write of the controller keeps: switching off, setting a
digital output, and switching a shutter on right after both its coils were switched off. -/
structure Safe (m : OutputContextMap) (I : Coils → Prop) : Prop where
  off : ∀ var c c', I c → Sets var false c c' → I c'
  digital : ∀ id io value c c', kindOf m id = some (.woDigital io) → I c → Sets io.var value c c' → I c'
  start : ∀ id io command c₀ c c', kindOf m id = some (.woShutter io) → I c → Stopped io c₀ c →
    Sets (movement io command).varOn true c c' → I c'

theorem safe_true (m : OutputContextMap) : Safe m fun _ => True :=
  ⟨fun _ _ _ _ _ => trivial, fun _ _ _ _ _ _ _ _ => trivial, fun _ _ _ _ _ _ _ _ _ _ => trivial⟩

theorem Safe.congr {m m' : OutputContextMap} {I : Coils → Prop} (h : Safe m I) (hk : kindOf m' = kindOf m) :
    Safe m' I :=
  ⟨h.off, fun id io v c c' => by rw [hk]; exact h.digital id io v c c',
    fun id io cmd c₀ c c' => by rw [hk]; exact h.start id io cmd c₀ c c'⟩

section
variable {I : Coils → Prop} {n : Nat} {s : St}

theorem wp_onWorld {α : Type} (m : Act α) {Q : α → St → Prop} {E : Fault → St → Prop} :
    wp (onWorld m) Q E s ↔
      wp m (fun a w => Q a { s with world := w }) (fun e w => E e { s with world := w }) s.world :=
  wp_zoom _ _ _

theorem wp_emit (e : Event) {Q : Unit → St → Prop} {E : Fault → St → Prop} :
    wp (emit e) Q E s ↔ Q () { s with log := s.log ++ [e] } := Iff.rfl

theorem startShutter_spec (env : Env) (id : String) (io : WagoIOUpDown) (mv : Movement)
    (hmv : ∃ command, mv = movement io command) (hS : Safe s.outputMap I)
    (hkind : kindOf s.outputMap id = some (.woShutter io)) (hk : Kept I n s.world) :
    wp (startShutter env id io mv)
      (fun _ s' => Kept I n s'.world ∧ ∃ w' c t deadline, Stopped io s.world.coils c ∧
        Sets mv.varOn true c w'.coils ∧ s.world.now ≤ t ∧ t ≤ w'.now ∧
        t + io.time.toNanos ≤ deadline ∧
        s' = { s with
          world := w'
          outputMap := setValue s.outputMap id (.shutter mv.nextState)
          waitTask := s.waitTask.insert id ⟨deadline, .shutter mv.targetState⟩
          txFeedback := s.txFeedback ++ [⟨id, .shutter mv.nextState⟩]
          log := s.log ++ [.started id mv.targetState t] })
      (fun _ s' => Kept I n s'.world) s := by
  -- Step by step: `simp` under the binders would leave the kernel to run `Task.fromNow`.
  rw [startShutter, wp_bind, wp_onWorld]
  refine wp_mono (stopShutter_spec env io hk hS.off) ?_ fun _ _ h => h
  intro _ w₁ h₁
  obtain ⟨k₁, s₁, n₁⟩ := h₁
  obtain ⟨command, rfl⟩ := hmv
  rw [wp_bind, wp_onWorld, setVarOn]
  refine wp_mono (setVar_spec env _ true k₁ fun c' => hS.start id io command _ _ c' hkind k₁.coils s₁)
    ?_ fun _ _ h => h
  intro _ w₂ h₂
  obtain ⟨k₂, s₂, n₂⟩ := h₂
  rw [wp_bind, wp_get, wp_bind, wp_emit, wp_bind, wp_onWorld]
  refine wp_mono (fromNow_spec env io.time _ w₂) ?_ fun _ w₃ h₃ => k₂.idle h₃
  intro task w₃ h₃
  obtain ⟨i₃, ht, hd⟩ := h₃
  rw [wp_bind, wp_modify]
  refine wp_mono (updateState_spec env id _ _) ?_ fun _ s' h₄ => (k₂.idle i₃).idle h₄
  intro _ s' h₄
  obtain ⟨w₄, i₄, rfl⟩ := h₄
  obtain ⟨deadline, target⟩ := task
  subst ht
  exact ⟨(k₂.idle i₃).idle i₄, w₄, w₁.coils, w₂.now, deadline, s₁, by rw [i₄.coils, i₃.coils]; exact s₂,
    Nat.le_trans n₁ n₂, Nat.le_trans i₃.now i₄.now, hd, rfl⟩

theorem haltShutter_spec (env : Env) (id : String) (io : WagoIOUpDown) (hS : Safe s.outputMap I)
    (hk : Kept I n s.world) :
    wp (haltShutter env id io)
      (fun _ s' => Kept I n s'.world ∧ ∃ w', Stopped io s.world.coils w'.coils ∧ s.world.now ≤ w'.now ∧
        s' = { s with
          world := w'
          outputMap := setValue s.outputMap id (.shutter .up)
          waitTask := s.waitTask.erase id
          txFeedback := s.txFeedback ++ [⟨id, .shutter .up⟩] })
      (fun _ s' => Kept I n s'.world) s := by
  simp only [haltShutter, onWorld, wp_bind, wp_zoom, wp_modify]
  refine wp_mono (stopShutter_spec env io hk hS.off) ?_ fun _ _ h => h
  intro _ w₁ h₁
  obtain ⟨k₁, s₁, n₁⟩ := h₁
  refine wp_mono (updateState_spec env id _ _) ?_ fun _ s' h₂ => k₁.idle h₂
  intro _ s' h₂
  obtain ⟨w₂, i₂, rfl⟩ := h₂
  exact ⟨k₁.idle i₂, w₂, by rw [i₂.coils]; exact s₁, Nat.le_trans n₁ i₂.now, rfl⟩

theorem setDigital_spec (env : Env) (id : String) (io : WagoIO) (value : Bool)
    (hS : Safe s.outputMap I) (hkind : kindOf s.outputMap id = some (.woDigital io)) (hk : Kept I n s.world) :
    wp (do onWorld (setVar env io.var value); updateState env id (.bool value))
      (fun _ s' => Kept I n s'.world ∧ ∃ w', Sets io.var value s.world.coils w'.coils ∧
        s.world.now ≤ w'.now ∧
        s' = { s with
          world := w'
          outputMap := setValue s.outputMap id (.bool value)
          txFeedback := s.txFeedback ++ [⟨id, .bool value⟩] })
      (fun _ s' => Kept I n s'.world) s := by
  simp only [onWorld, wp_bind, wp_zoom]
  refine wp_mono (setVar_spec env io.var value hk fun c' => hS.digital id io value _ c' hkind hk.coils)
    ?_ fun _ _ h => h
  intro _ w₁ h₁
  obtain ⟨k₁, s₁, n₁⟩ := h₁
  refine wp_mono (updateState_spec env id _ _) ?_ fun _ s' h₂ => k₁.idle h₂
  intro _ s' h₂
  obtain ⟨w₂, i₂, rfl⟩ := h₂
  exact ⟨k₁.idle i₂, w₂, by rw [i₂.coils]; exact s₁, Nat.le_trans n₁ i₂.now, rfl⟩

/-- **The command branch.** -/
theorem onCommand_spec (env : Env) (d : IODataAction) (hS : Safe s.outputMap I) (hk : Kept I n s.world) :
    wp (onCommand env d)
      (fun _ s' => Kept I n s'.world ∧ CmdEffect s d.id (outcome s.outputMap d) s')
      (fun _ s' => Kept I n s'.world) s := by
  simp only [onCommand, emit, wp_bind, wp_modify, wp_get]
  cases hl : s.outputMap.lookup d.id with
  | none => exact ⟨hk, by simp [outcome, hl, CmdEffect, received]⟩
  | some ctx =>
    simp only [outcome, hl, outcomeOf]
    cases newValue ctx.value d.action with
    | none => exact ⟨hk, rfl⟩
    | some value =>
      simp only [applyValue]
      have hkind : kindOf s.outputMap d.id = some ctx.output.kind := by simp [kindOf, hl]
      cases hko : ctx.output.kind with
      | hueOutputLightRGB => exact ⟨hk, rfl⟩
      | mySensorsOutputShutterSmart => exact ⟨hk, rfl⟩
      | woDigital io =>
        rw [hko] at hkind
        cases value with
        | none => exact ⟨hk, rfl⟩
        | some v =>
          cases v with
          | bool b => exact setDigital_spec (s := { s with log := s.log ++ [received s d.id] }) env d.id io b hS hkind hk
          | int i => exact ⟨hk, rfl⟩
          | string t => exact ⟨hk, rfl⟩
          | shutter t => exact ⟨hk, rfl⟩
      | woShutter io =>
        rw [hko] at hkind
        simp only
        cases shutterCommand ctx.value value with
        | none => exact haltShutter_spec (s := { s with log := s.log ++ [received s d.id] }) env d.id io hS hk
        | some command =>
          exact startShutter_spec (s := { s with log := s.log ++ [received s d.id] }) env d.id io _ ⟨command, rfl⟩ hS hkind hk

/-! ## Expiry -/

/-- Everything the loop body does for the task of `id`, case by case. -/
inductive ExpireEffect (now : Nat) (s : St) (id : String) : St → Prop
  | absent (h : s.waitTask.lookup id = none) : ExpireEffect now s id s
  | later (task : Task) (h : s.waitTask.lookup id = some task) (hd : now < task.deadline) :
      ExpireEffect now s id s
  | due (task : Task) (io : WagoIOUpDown) (w' : World) (h : s.waitTask.lookup id = some task)
      (hd : task.deadline ≤ now) (hkind : kindOf s.outputMap id = some (.woShutter io))
      (hc : Stopped io s.world.coils w'.coils) (hn : s.world.now ≤ w'.now) :
      ExpireEffect now s id { s with
        world := w'
        outputMap := setValue s.outputMap id task.targetState
        txFeedback := s.txFeedback ++ [⟨id, task.targetState⟩]
        log := s.log ++ [.expired id task.targetState now] }
  | unknown (task : Task) (h : s.waitTask.lookup id = some task) (hkind : kindOf s.outputMap id = none) :
      ExpireEffect now s id { s with log := s.log ++ [.unknownTask id] }
  | unexpected (task : Task) (k : OutputKind) (h : s.waitTask.lookup id = some task)
      (hkind : kindOf s.outputMap id = some k) (hns : ∀ io, k ≠ .woShutter io) :
      ExpireEffect now s id { s with log := s.log ++ [.unexpectedTask id] }

/-- Where every task is for a shutter, the loop body does nothing but end the task of `id` when it is due. -/
theorem ExpireEffect.known {now : Nat} {id : String} {s' : St} (he : ExpireEffect now s id s')
    (hkeys : ∀ task, s.waitTask.lookup id = some task → ∃ io, kindOf s.outputMap id = some (.woShutter io)) :
    (s' = s ∧ ∀ task, s.waitTask.lookup id = some task → now < task.deadline) ∨
    ∃ task io w', s.waitTask.lookup id = some task ∧ task.deadline ≤ now ∧
      kindOf s.outputMap id = some (.woShutter io) ∧ Stopped io s.world.coils w'.coils ∧
      s' = { s with
        world := w'
        outputMap := setValue s.outputMap id task.targetState
        txFeedback := s.txFeedback ++ [⟨id, task.targetState⟩]
        log := s.log ++ [.expired id task.targetState now] } := by
  cases he with
  | absent hl =>
    refine .inl ⟨rfl, fun task ht => ?_⟩
    rw [hl] at ht
    cases ht
  | later task hl hlt =>
    refine .inl ⟨rfl, fun t ht => ?_⟩
    rw [hl] at ht
    cases ht
    exact hlt
  | due task io w' hl hle hkind hc _ => exact .inr ⟨task, io, w', hl, hle, hkind, hc, rfl⟩
  | unknown task hl hkind =>
    obtain ⟨io, hio⟩ := hkeys task hl
    rw [hio] at hkind
    cases hkind
  | unexpected task k hl hkind hns =>
    obtain ⟨io, hio⟩ := hkeys task hl
    rw [hio] at hkind
    cases hkind
    exact absurd rfl (hns io)

theorem expireTask_spec (env : Env) (now : Nat) (id : String) (hS : Safe s.outputMap I)
    (hk : Kept I n s.world) :
    wp (expireTask env now id) (fun _ s' => Kept I n s'.world ∧ ExpireEffect now s id s')
      (fun _ s' => Kept I n s'.world) s := by
  simp only [expireTask, wp_bind, wp_get]
  cases ht : s.waitTask.lookup id with
  | none => exact ⟨hk, .absent ht⟩
  | some task =>
    simp only
    split
    · rename_i hd
      exact ⟨hk, .later task ht hd⟩
    · rename_i hd
      simp only [wp_bind, wp_get]
      cases hl : s.outputMap.lookup id with
      | none => exact ⟨hk, .unknown task ht (by simp [kindOf, hl])⟩
      | some ctx =>
        have hkind : kindOf s.outputMap id = some ctx.output.kind := by simp [kindOf, hl]
        simp only
        cases hko : ctx.output.kind with
        | hueOutputLightRGB => exact ⟨hk, .unexpected task _ ht hkind (by rw [hko]; simp)⟩
        | woDigital io => exact ⟨hk, .unexpected task _ ht hkind (by rw [hko]; simp)⟩
        | mySensorsOutputShutterSmart => exact ⟨hk, .unexpected task _ ht hkind (by rw [hko]; simp)⟩
        | woShutter io =>
          rw [hko] at hkind
          simp only [onWorld, emit, wp_bind, wp_zoom, wp_modify]
          refine wp_mono (stopShutter_spec env io hk hS.off) ?_ fun _ _ h => h
          intro _ w₁ h₁
          obtain ⟨k₁, s₁, n₁⟩ := h₁
          refine wp_mono (updateState_spec env id _ _) ?_ fun _ s' h₂ => k₁.idle h₂
          intro _ s' h₂
          obtain ⟨w₂, i₂, rfl⟩ := h₂
          exact ⟨k₁.idle i₂, .due task io w₂ ht (by omega) hkind (by rw [i₂.coils]; exact s₁)
            (Nat.le_trans n₁ i₂.now)⟩

/-- The loop over the tasks, body after body. -/
inductive ExpireAll (now : Nat) : St → List String → St → Prop
  | nil (s : St) : ExpireAll now s [] s
  | cons {s t u : St} {id : String} {ids : List String} (h : ExpireEffect now s id t)
      (hr : ExpireAll now t ids u) : ExpireAll now s (id :: ids) u

end

/-! ## Which output has which kind never changes -/

theorem kindOf_setValue (m : OutputContextMap) (id : String) (value : IOValue) :
    kindOf (setValue m id value) = kindOf m := by
  funext id'
  unfold kindOf setValue
  rw [HMap.lookup_modify_eq]
  split
  · rename_i h; subst h
    cases m.lookup id' <;> rfl
  · rfl

theorem ExpireEffect.kindOf {now : Nat} {s s' : St} {id : String} (h : ExpireEffect now s id s') :
    kindOf s'.outputMap = kindOf s.outputMap := by
  cases h <;> first | rfl | exact kindOf_setValue _ _ _

theorem ExpireAll.kindOf {now : Nat} {s s' : St} {ids : List String} (h : ExpireAll now s ids s') :
    kindOf s'.outputMap = kindOf s.outputMap := by
  induction h with
  | nil => rfl
  | cons h _ ih => rw [ih, h.kindOf]

theorem CmdEffect.kindOf {s s' : St} {id : String} {o : Outcome} (h : CmdEffect s id o s') :
    kindOf s'.outputMap = kindOf s.outputMap := by
  cases o with
  | ignore => cases h; rfl
  | digital io value => obtain ⟨_, _, _, rfl⟩ := h; exact kindOf_setValue _ _ _
  | start io command => obtain ⟨_, _, _, _, _, _, _, _, _, rfl⟩ := h; exact kindOf_setValue _ _ _
  | halt io => obtain ⟨_, _, _, rfl⟩ := h; exact kindOf_setValue _ _ _

section
variable {I : Coils → Prop} {n : Nat} {s : St}

theorem expireTasks_spec (env : Env) (now : Nat) : ∀ (ids : List String) (s : St), Safe s.outputMap I →
    Kept I n s.world →
    wp (expireTasks env now ids) (fun _ s' => Kept I n s'.world ∧ ExpireAll now s ids s')
      (fun _ s' => Kept I n s'.world) s
  | [], s, _, hk => ⟨hk, .nil s⟩
  | id :: ids, s, hS, hk => by
    simp only [expireTasks, wp_bind]
    refine wp_mono (expireTask_spec env now id hS hk) ?_ fun _ _ h => h
    intro _ t h₁
    obtain ⟨k₁, e₁⟩ := h₁
    refine wp_mono (expireTasks_spec env now ids t (hS.congr e₁.kindOf) k₁) ?_ fun _ _ h => h
    intro _ u h₂
    exact ⟨h₂.1, .cons e₁ h₂.2⟩

/-- What the whole expiry branch changes: one instant `now` for all tasks. -/
def ExpiryEffect (s : St) (order : List String) (s' : St) : Prop :=
  ∃ w now t, Idle s.world w ∧ s.world.now ≤ now ∧ ExpireAll now { s with world := w } order t ∧
    s' = { t with waitTask := t.waitTask.retain fun _ task => task.deadline > now }

/-- **The expiry branch.** -/
theorem onExpiry_spec (env : Env) (order : List String) (hS : Safe s.outputMap I) (hk : Kept I n s.world) :
    wp (onExpiry env order) (fun _ s' => Kept I n s'.world ∧ ExpiryEffect s order s')
      (fun _ s' => Kept I n s'.world) s := by
  simp only [onExpiry, onWorld, wp_bind, wp_zoom, wp_modify]
  refine wp_mono (instantNow_spec env s.world) ?_ fun _ _ h => h.elim
  intro now w h
  obtain ⟨hi, rfl⟩ := h
  refine wp_mono (expireTasks_spec env w.now order { s with world := w } hS (hk.idle hi)) ?_
    fun _ _ h => h
  intro _ t ht
  exact ⟨ht.1, w, w.now, t, hi, hi.now, ht.2, rfl⟩

/-! ## One turn -/

/-- Everything one successful turn changes. -/
def Effect (s : St) : Label → St → Prop
  | .recv none, s' => s' = { s with closed := true }
  | .recv (some d), s' => CmdEffect s d.id (outcome s.outputMap d) s'
  | .expiry order, s' => ExpiryEffect s order s'
  | .keepAlive, s' => ∃ w', Idle s.world w' ∧ s' = { s with world := w' }

/-- **One turn of the loop.** -/
theorem iteration_spec (env : Env) (l : Label) (hS : Safe s.outputMap I) (hk : Kept I n s.world) :
    wp (iteration env l) (fun _ s' => Kept I n s'.world ∧ Effect s l s') (fun _ s' => Kept I n s'.world) s := by
  cases l with
  | recv d =>
    cases d with
    | none => exact ⟨hk, rfl⟩
    | some d => exact onCommand_spec env d hS hk
  | expiry order => exact onExpiry_spec env order hS hk
  | keepAlive =>
    simp only [iteration, onWorld, wp_zoom]
    exact wp_mono (modbusKeepAlive_spec env s.world) (fun _ w h => ⟨hk.idle h, w, h, rfl⟩) fun _ w h => hk.idle h

theorem Effect.kindOf {s' : St} {l : Label} (h : Effect s l s') : kindOf s'.outputMap = kindOf s.outputMap := by
  cases l with
  | recv d =>
    cases d with
    | none => cases h; rfl
    | some d => exact CmdEffect.kindOf h
  | expiry order =>
    obtain ⟨w, now, t, _, _, ha, rfl⟩ := h
    exact ha.kindOf
  | keepAlive =>
    obtain ⟨w, _, rfl⟩ := h
    rfl

end

end Calaos.Wago
