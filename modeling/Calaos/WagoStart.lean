import Calaos.WagoEffects
/-!
# The startup loop of the Wago controller, and the states of a run

The loop over `output_map` that comes before the main loop stops every shutter and reads every digital
output. Whatever order the map is iterated in, the main loop starts `Readied`: all shutters dark, no
task, and the values of the shutters as they were given.

`DistinctCoils` is the assumption on the configuration that the interlock and the motors need: no two
variables of the outputs share a coil.
-/
namespace Calaos.Wago

open Eff Runs

/-- A shutter that the controller handles under `id`. -/
def IsShutter (m : OutputContextMap) (id : String) (io : WagoIOUpDown) : Prop :=
  kindOf m id = some (.woShutter io)

/-- Neither motor of the shutter is powered. -/
def Dark (c : Coils) (io : WagoIOUpDown) : Prop := lit c io.varUp = false ∧ lit c io.varDown = false

theorem Stopped.dark {io : WagoIOUpDown} {c c' : Coils} (h : Stopped io c c') : Dark c' io := by
  constructor <;> rw [h] <;> simp

/-- Stopping one shutter starts no other. -/
theorem Stopped.dark_of_dark {io io' : WagoIOUpDown} {c c' : Coils} (h : Stopped io c c') (hd : Dark c io') :
    Dark c' io' := by
  constructor <;> rw [h]
  · simp [hd.1]
  · simp [hd.2]

/-! ## Coil addresses -/

/-- The coils of an output. -/
def coilsOf : OutputKind → List UInt32
  | .woDigital io => [coilAddr io.var]
  | .woShutter io => [coilAddr io.varUp, coilAddr io.varDown]
  | _ => []

/-- The coils of the output handled under `id`. -/
def coilsAt (m : OutputContextMap) (id : String) : List UInt32 :=
  match kindOf m id with
  | some kind => coilsOf kind
  | none => []

/-- The outputs use pairwise different coils, and so do the two variables of one shutter. -/
def DistinctCoils (m : OutputContextMap) : Prop :=
  (∀ id, (coilsAt m id).Nodup) ∧ ∀ id id', id ≠ id' → (coilsAt m id).Disjoint (coilsAt m id')

theorem coilsAt_of_not_mem {m : OutputContextMap} {id : String} (h : id ∉ m.keys) : coilsAt m id = [] := by
  have : m.lookup id = none := Finmap.lookup_eq_none.2 fun hm => h (Finmap.mem_keys.2 hm)
  simp [coilsAt, kindOf, this]

instance (m : OutputContextMap) : Decidable (DistinctCoils m) :=
  decidable_of_iff ((∀ id ∈ m.keys, (coilsAt m id).Nodup) ∧
      ∀ id ∈ m.keys, ∀ id' ∈ m.keys, id ≠ id' →
        (coilsAt m id).all (fun a => a ∉ coilsAt m id') = true) <| by
    simp only [List.all_eq_true, decide_eq_true_eq]
    constructor
    · rintro ⟨hn, hd⟩
      constructor
      · intro id
        by_cases hk : id ∈ m.keys
        · exact hn id hk
        · rw [coilsAt_of_not_mem hk]; exact List.nodup_nil
      · intro id id' hne a ha ha'
        by_cases hk : id ∈ m.keys
        · by_cases hk' : id' ∈ m.keys
          · exact hd id hk id' hk' hne a ha ha'
          · simp [coilsAt_of_not_mem hk'] at ha'
        · simp [coilsAt_of_not_mem hk] at ha
    · rintro ⟨hn, hd⟩
      exact ⟨fun id _ => hn id, fun id _ id' _ hne a ha ha' => hd id id' hne ha ha'⟩

section
variable {m : OutputContextMap} {id id' : String} {io io' : WagoIOUpDown}

/-- The two coils of one shutter. -/
theorem DistinctCoils.own (h : DistinctCoils m) (hs : IsShutter m id io) :
    coilAddr io.varUp ≠ coilAddr io.varDown := by
  have := h.1 id
  simpa [coilsAt, show kindOf m id = _ from hs, coilsOf] using this

/-- A coil of another output is no coil of the shutter. -/
theorem DistinctCoils.other (h : DistinctCoils m) (hs : IsShutter m id io) (hne : id' ≠ id) {kind : OutputKind}
    (hk : kindOf m id' = some kind) {a : UInt32} (ha : a ∈ coilsOf kind) :
    coilAddr io.varUp ≠ a ∧ coilAddr io.varDown ≠ a := by
  have hd := h.2 id' id hne
  simp only [coilsAt, hk, show kindOf m id = _ from hs, coilsOf] at hd
  constructor <;> rintro rfl <;> exact hd ha (by simp)

/-- A shutter and a digital output have different ids. -/
theorem IsShutter.ne_digital {wio : WagoIO} (hs : IsShutter m id io) (hk : kindOf m id' = some (.woDigital wio)) :
    id' ≠ id := by
  rintro rfl
  rw [IsShutter, hk] at hs
  cases hs

end

/-! ## The loop before the main loop -/

section
-- Unfolding a specification must not end in 32-bit arithmetic on an unknown variable.
attribute [local irreducible] u16TryFrom

/-- Everything the loop body does for one output, case by case. -/
inductive StartEffect (s : St) (id : String) : St → Prop
  | skip (hd : ∀ io, kindOf s.outputMap id ≠ some (.woDigital io))
      (hs : ∀ io, kindOf s.outputMap id ≠ some (.woShutter io)) : StartEffect s id s
  | digital (io : WagoIO) (value : Bool) (w' : World) (hkind : kindOf s.outputMap id = some (.woDigital io))
      (hi : Idle s.world w') :
      StartEffect s id { s with
        world := w'
        outputMap := setValue s.outputMap id (.bool value)
        txFeedback := s.txFeedback ++ [⟨id, .bool value⟩] }
  | shutter (io : WagoIOUpDown) (w' : World) (hkind : kindOf s.outputMap id = some (.woShutter io))
      (hc : Stopped io s.world.coils w'.coils) :
      StartEffect s id { s with world := w', txFeedback := s.txFeedback ++ [⟨id, .shutter .up⟩] }

theorem startOutput_spec (env : Env) (id : String) (s : St) :
    wp (startOutput env id) (fun _ s' => StartEffect s id s') (fun _ _ => True) s := by
  simp only [startOutput, wp_bind, wp_get]
  cases hl : s.outputMap.lookup id with
  | none => exact .skip (by simp [kindOf, hl]) (by simp [kindOf, hl])
  | some context =>
    have hkind : kindOf s.outputMap id = some context.output.kind := by simp [kindOf, hl]
    simp only
    cases hk : context.output.kind with
    | hueOutputLightRGB => exact .skip (by simp [hkind, hk]) (by simp [hkind, hk])
    | mySensorsOutputShutterSmart => exact .skip (by simp [hkind, hk]) (by simp [hkind, hk])
    | woDigital wio =>
      rw [hk] at hkind
      rw [wp_bind, wp_onWorld]
      refine wp_mono (readVar_spec env wio.var s.world) ?_ fun _ _ _ => trivial
      intro value w₁ h₁
      refine wp_mono (updateState_spec env id (.bool value) { s with world := w₁ }) ?_ fun _ _ _ => trivial
      intro _ s' h₂
      obtain ⟨w₂, h₂, rfl⟩ := h₂
      exact .digital wio value w₂ hkind (h₁.trans h₂)
    | woShutter io =>
      rw [hk] at hkind
      rw [wp_bind, wp_onWorld]
      refine wp_mono (stopShutter_spec (I := fun _ => True) env io (kept_true s.world) fun _ _ _ _ _ => trivial)
        ?_ fun _ _ _ => trivial
      intro _ w₁ h₁
      refine wp_mono (sendFeedback_spec env ⟨id, .shutter .up⟩ { s with world := w₁ }) ?_ fun _ _ _ => trivial
      intro _ s' h₂
      obtain ⟨w₂, h₂, rfl⟩ := h₂
      exact .shutter io w₂ hkind (by rw [h₂.coils]; exact h₁.2.1)

/-- What every body keeps, the loop keeps; `visited` are the ids that were visited. -/
theorem startup_spec (env : Env) {I : List String → St → Prop}
    (hstep : ∀ visited s id s', I visited s → StartEffect s id s' → I (id :: visited) s') :
    ∀ (ids visited : List String) (s : St), I visited s →
      wp (startup env ids) (fun _ s' => I (ids.reverse ++ visited) s') (fun _ _ => True) s
  | [], _, _, h => h
  | id :: ids, visited, s, h => by
    rw [startup, wp_bind]
    refine wp_mono (startOutput_spec env id s) ?_ fun _ _ h => h
    intro _ t ht
    rw [List.reverse_cons, List.append_assoc]
    exact startup_spec env hstep ids (id :: visited) t (hstep visited s id t h ht)

end

section
variable {env : Env} {w : World} {m : OutputContextMap} {visited : List String} {id : String} {s s' : St}

/-- The whole loop visits every output. -/
theorem Started.invariant (h : Started env w m s) {I : List String → St → Prop} (hinit : I [] (init w m))
    (hstep : ∀ visited s id s', I visited s → StartEffect s id s' → I (id :: visited) s') :
    ∃ visited, (∀ id, id ∈ visited ↔ id ∈ m) ∧ I visited s := by
  obtain ⟨order, ho, hs⟩ := h
  have hi : I (order.reverse ++ []) s :=
    wp_ok (Q := fun _ t => I (order.reverse ++ []) t) (startup_spec env hstep order [] _ hinit) hs
  refine ⟨order.reverse ++ [], ?_, hi⟩
  intro id
  rw [List.append_nil, List.mem_reverse]
  exact ho.2 id

theorem mem_of_kindOf {kind : OutputKind} (h : kindOf m id = some kind) : id ∈ m := by
  unfold kindOf at h
  cases hl : m.lookup id with
  | none => rw [hl] at h; cases h
  | some ctx => exact Finmap.mem_of_lookup_eq_some hl

/-- The startup loop has gone through the ids in `done`. -/
structure Readied (m : OutputContextMap) (done : String → Prop) (s : St) : Prop where
  kinds : kindOf s.outputMap = kindOf m
  waitTask : s.waitTask = ∅
  closed : s.closed = false
  log : s.log = []
  dark : ∀ id io, done id → IsShutter m id io → Dark s.world.coils io
  values : ∀ id io, IsShutter m id io → s.outputMap.lookup id = m.lookup id

theorem Readied.init (w : World) (m : OutputContextMap) : Readied m (fun id => id ∈ []) (init w m) :=
  ⟨rfl, rfl, rfl, rfl, fun _ _ h => absurd h List.not_mem_nil, fun _ _ _ => rfl⟩

theorem Readied.step (h : Readied m (fun x => x ∈ visited) s) (he : StartEffect s id s') :
    Readied m (fun x => x ∈ id :: visited) s' := by
  have hkind : kindOf m id = kindOf s.outputMap id := by rw [h.kinds]
  cases he with
  | skip _ hs =>
    refine { h with dark := ?_ }
    intro x io hx hio
    rcases List.mem_cons.1 hx with rfl | hx
    · exact absurd (hkind.symm.trans hio) (hs io)
    · exact h.dark x io hx hio
  | digital wio value w' hk hi =>
    refine { kinds := (kindOf_setValue _ _ _).trans h.kinds, waitTask := h.waitTask, closed := h.closed
             log := h.log, dark := ?_, values := ?_ }
    · intro x io hx hio
      rw [hi.coils]
      rcases List.mem_cons.1 hx with rfl | hx
      · exact absurd rfl (hio.ne_digital (hkind.trans hk))
      · exact h.dark x io hx hio
    · intro x io hio
      rw [← h.values x io hio]
      exact HMap.lookup_modify_ne _ _ (hio.ne_digital (hkind.trans hk)).symm
  | shutter io w' hk hc =>
    refine { h with dark := ?_ }
    intro x io' hx hio
    rcases List.mem_cons.1 hx with rfl | hx
    · rw [IsShutter, hkind, hk] at hio
      cases hio
      exact hc.dark
    · exact hc.dark_of_dark (h.dark x io' hx hio)

/-- **The main loop starts with every shutter stopped and no task.** -/
theorem Started.ready (h : Started env w m s) : Readied m (fun _ => True) s := by
  obtain ⟨visited, hv, hr⟩ :=
    h.invariant (I := fun visited => Readied m fun x => x ∈ visited) (.init w m) fun _ _ _ _ => Readied.step
  exact { hr with dark := fun id io _ hio => hr.dark id io ((hv id).2 (mem_of_kindOf hio)) hio }

end

/-! ## Runs -/

/-- The states a run goes through: those between two turns, and the one in which an error leaves it. -/
inductive Visits (env : Env) (s₀ : St) : St → Prop
  | between {s : St} (ls : List Label) (h : run (step env) s₀ ls = some s) : Visits env s₀ s
  | failed {s s' : St} (ls : List Label) (h : run (step env) s₀ ls = some s) (l : Label) (hl : enabled s l)
      (e : Fault) (he : iteration env l s = .error e s') : Visits env s₀ s'

theorem step_spec {env : Env} {s s' : St} {l : Label} (h : step env s l = some s') :
    enabled s l ∧ Effect s l s' := by
  obtain ⟨hl, hi⟩ := step_eq_some.1 h
  exact ⟨hl, (wp_ok (iteration_spec env l (safe_true _) (kept_true s.world)) hi).2⟩

/-! ## A house with one shutter

On it the hypotheses of the theorems about runs are met. -/

/-- Nothing has been asked for yet. -/
def idleWorld : World := ⟨0, 0, fun _ => false, [], [], ∅⟩

/-- Every operation takes `delay`, and the PLC carries out every write request from the tick `broken` on
without answering it. -/
def plcEnv (delay broken : Nat) : Env :=
  ⟨fun _ => delay, fun tick => if tick < broken then .ok else .err true, fun _ => some [false], fun _ => true⟩

/-- A shutter that moves for ten seconds. -/
def blinds : WagoIOUpDown := ⟨"wago", "502", 1, 2, .fromSecs 10⟩

/-- The only entry of `output_map`. -/
def oneShutter : OutputContextMap :=
  (∅ : OutputContextMap).insert "blinds" ⟨⟨"Blinds", "blinds", "", .woShutter blinds, "", true, true⟩, none⟩

/-- The command to move it. -/
def setShutter (state : ShutterState) : Label := .recv (some ⟨"blinds", .setValue (.shutter state)⟩)

/-- The state in which a piece of `run` ends. -/
def stateAfter : EStateM.Result Fault St Unit → St
  | .ok _ s | .error _ s => s

/-- The state in which its main loop starts. -/
def blindsStart (env : Env) : St := stateAfter (startup env ["blinds"] (init idleWorld oneShutter))

theorem blinds_started (delay : Nat) :
    Started (plcEnv delay 30) idleWorld oneShutter (blindsStart (plcEnv delay 30)) :=
  ⟨["blinds"], by decide, rfl⟩

/-- The state after the turns `ls`, the last of which may fail. -/
def blindsAfter (env : Env) (ls : List Label) : St :=
  ls.foldl (fun s l => stateAfter (iteration env l s)) (blindsStart env)

end Calaos.Wago
