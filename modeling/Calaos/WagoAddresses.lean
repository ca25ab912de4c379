import Calaos.Parts
import Calaos.WagoTurn
/-!
# The addresses of the outputs that the startup loop lets pass

| here | there |
| --- | --- |
| `digitalVar` | the variable that the startup loop reads, if the output is digital |
| `Accepted`   | neither `read_var` nor `stop_shutter` has failed on an address of the output |
| `Addressed`  | `set_var` has an address for each variable of the output |

The startup loop tries a digital output at `var + 0x200`, and commands go to `var | 0x1000`. The sum may wrap around.
Then the output is read at an address of another one, and the first command for it ends the controller.
-/
namespace Calaos.Wago

open Eff Runs

/-! ## Addresses of a variable -/

/-- `set_var` has an address for the variable. -/
def HasCoil (var : UInt32) : Prop := (u16TryFrom (coilAddr var)).isSome = true

section
-- Unfolding a request must not end in 32-bit arithmetic on an unknown variable.
attribute [local irreducible] u16TryFrom

variable {env : Env} {P : List UInt16 → Prop} {R : UInt16 → Prop} {var : UInt32} {value : Bool} {io : WagoIOUpDown}

/-- No request fails on an address, and the reads are as they should be. -/
theorem requests_reads (h : ∀ reads address, P reads → R address → P (reads ++ [address])) :
    Requests (fun _ => True) R (fun w => P w.reads) (· ≠ .address) where
  idle w w' hw _ hr := by rw [hr]; exact hw
  wrote w w' r hw _ _ hr := by rw [hr]; exact hw
  read w w' address hw ha _ hr := by rw [hr]; exact h w.reads address hw ha
  modbus := by decide
  panic := by decide

/-- Requests other than reads. -/
theorem requests_same (reads : List UInt16) :
    Requests (fun _ => True) (fun _ => False) (fun w => w.reads = reads) (· ≠ .address) :=
  requests_reads (P := (· = reads)) fun _ _ _ ha => False.elim ha

theorem HasCoil.coilIn (h : HasCoil var) : CoilIn (fun _ => True) (· ≠ .address) var where
  address _ _ := trivial
  none hnone := by
    rw [HasCoil, hnone] at h
    cases h

/-- Without an address there is the error. -/
theorem setVar_eq_throw (h : ¬ HasCoil var) : setVar env var value = throw .address := by
  have ha : u16TryFrom (var ||| 0x1000) = none := Option.not_isSome_iff_eq_none.1 h
  unfold setVar
  rw [ha]

/-- `stop_shutter` goes through for a shutter that has both addresses. -/
theorem stopShutter_accepts (w : World) : wp (stopShutter env io)
    (fun _ w' => (HasCoil io.varDown ∧ HasCoil io.varUp) ∧ w'.reads = w.reads) (fun _ _ => True) w := by
  have h := requests_same w.reads
  by_cases hdown : HasCoil io.varDown
  · by_cases hup : HasCoil io.varUp
    · exact wp_mono (h.stopShutter hdown.coilIn hup.coilIn w rfl) (fun _ _ h => ⟨⟨hdown, hup⟩, h⟩)
        fun _ _ _ => trivial
    · unfold stopShutter setVarOff
      rw [setVar_eq_throw hup, wp_bind]
      exact wp_mono (h.setVar hdown.coilIn w rfl) (fun _ _ _ => trivial) fun _ _ _ => trivial
  · unfold stopShutter setVarOff
    rw [setVar_eq_throw hdown]
    exact trivial

/-- `read_var` goes through where the sum is an address, and reads there. -/
theorem readVar_accepts (w : World) : wp (readVar env var)
    (fun _ w' => ∃ address, u16TryFrom (var + 0x200) = some address ∧ w'.reads = w.reads ++ [address])
    (fun _ _ => True) w := by
  unfold readVar
  split
  · rename_i address ha
    simp only [readDiscreteInput, readDiscreteInputs, wp_bind, wp_modify, wp_get]
    refine wp_mono ((requests_same w.reads).elapse 0 w rfl) ?_ fun _ _ _ => trivial
    intro _ w₁ h₁
    split
    · rename_i values _
      cases values with
      | nil => exact trivial
      | cons value values => exact ⟨address, ha, by rw [h₁]⟩
    · exact trivial
  · exact trivial

end

/-! ## The startup loop -/

section
attribute [local irreducible] u16TryFrom

variable {env : Env} {kinds : String → Option OutputKind} {id : String}

/-- The variable that the startup loop reads. -/
def digitalVar (kind : Option OutputKind) : Option UInt32 :=
  match kind with
  | some (.woDigital io) => some io.var
  | _ => none

/-- The startup loop has not failed on an address of the output. -/
def Accepted : OutputKind → Prop
  | .woDigital io => ∃ address, u16TryFrom (io.var + 0x200) = some address
  | .woShutter io => HasCoil io.varDown ∧ HasCoil io.varUp
  | _ => True

theorem u16TryFrom_toNat {x : UInt32} {address : UInt16} (h : u16TryFrom x = some address) :
    address.toNat = x.toNat ∧ x.toNat < 65536 := by
  unfold u16TryFrom at h
  split_ifs at h with hlt
  cases h
  rw [UInt32.toNat_toUInt16]
  omega

/-- What the startup loop reads of these outputs. -/
def readAt (kinds : String → Option OutputKind) (ids : List String) : List Nat :=
  (ids.filterMap fun id => digitalVar (kinds id)).map fun var => (var + 0x200).toNat

/-- The reads that were there before, and those for these outputs. -/
abbrev ReadOn (reads : List UInt16) (kinds : String → Option OutputKind) (ids : List String) :
    List UInt16 → Prop :=
  fun reads' => reads'.map UInt16.toNat = reads.map UInt16.toNat ++ readAt kinds ids

theorem readAt_digital {io : WagoIO} (h : kinds id = some (.woDigital io)) :
    readAt kinds [id] = [(io.var + 0x200).toNat] := by
  simp [readAt, h, digitalVar]

theorem readAt_other (h : ∀ io, kinds id ≠ some (.woDigital io)) : readAt kinds [id] = [] := by
  have hnone : digitalVar (kinds id) = none := by
    unfold digitalVar
    split
    · rename_i io hk
      exact absurd hk (h io)
    · rfl
  simp [readAt, hnone]

theorem startOutput_accepts {s : St} (hs : kindOf s.outputMap = kinds) : wp (startOutput env id)
    (fun _ s' => (∀ kind, kinds id = some kind → Accepted kind) ∧
      Frame kinds (fun w => ReadOn s.world.reads kinds [id] w.reads) s') (fun _ _ => True) s := by
  have hkind : kinds id = (s.outputMap.lookup id).map (·.output.kind) := by rw [← hs]; rfl
  have hreport : Requests (fun _ => True) (fun _ => False) (fun w => ReadOn s.world.reads kinds [id] w.reads)
    (· ≠ .address) := requests_reads (P := ReadOn s.world.reads kinds [id]) fun _ _ _ ha => False.elim ha
  -- an output that is neither read nor stopped
  have hother : (∀ io, kinds id ≠ some (.woDigital io)) → (∀ io, kinds id ≠ some (.woShutter io)) →
      (∀ kind, kinds id = some kind → Accepted kind) ∧ Frame kinds (fun w => ReadOn s.world.reads kinds [id] w.reads) s := by
    intro hdigital hshutter
    refine ⟨fun kind hk => ?_, hs, by simp [ReadOn, readAt_other hdigital]⟩
    cases kind with
    | woDigital io => exact absurd hk (hdigital io)
    | woShutter io => exact absurd hk (hshutter io)
    | _ => trivial
  unfold startOutput
  rw [wp_bind, wp_get]
  cases hl : s.outputMap.lookup id with
  | none =>
    rw [hl, Option.map_none] at hkind
    exact hother (by simp [hkind]) (by simp [hkind])
  | some ctx =>
    rw [hl, Option.map_some] at hkind
    simp only
    cases hk : ctx.output.kind with
    | woDigital io =>
      rw [hk] at hkind
      simp only
      rw [wp_bind, wp_onWorld]
      refine wp_mono (readVar_accepts s.world) ?_ fun _ _ h => h
      rintro value w₁ ⟨address, ha, hreads⟩
      have hframe : Frame kinds (fun w => ReadOn s.world.reads kinds [id] w.reads) { s with world := w₁ } := by
        refine ⟨hs, ?_⟩
        simp only [ReadOn, hreads, readAt_digital hkind, List.map_append, List.map_cons, List.map_nil,
          (u16TryFrom_toNat ha).1]
      refine wp_mono (hreport.updateState (by decide) (.bool value) _ hframe) ?_ fun _ _ _ => trivial
      intro _ s' h'
      refine ⟨fun kind hkind' => ?_, h'⟩
      rw [hkind] at hkind'
      cases hkind'
      exact ⟨address, ha⟩
    | woShutter io =>
      rw [hk] at hkind
      simp only
      rw [wp_bind, wp_onWorld]
      refine wp_mono (stopShutter_accepts s.world) ?_ fun _ _ h => h
      rintro _ w₁ ⟨hcoils, hreads⟩
      have hframe : Frame kinds (fun w => ReadOn s.world.reads kinds [id] w.reads) { s with world := w₁ } := by
        refine ⟨hs, ?_⟩
        rw [ReadOn, readAt_other (by simp [hkind])]
        simp only [hreads, List.append_nil]
      refine wp_mono (hreport.sendFeedback (by decide) _ _ hframe) ?_ fun _ _ _ => trivial
      intro _ s' h'
      refine ⟨fun kind hkind' => ?_, h'⟩
      rw [hkind] at hkind'
      cases hkind'
      exact hcoils
    | hueOutputLightRGB =>
      rw [hk] at hkind
      exact hother (by simp [hkind]) (by simp [hkind])
    | mySensorsOutputShutterSmart =>
      rw [hk] at hkind
      exact hother (by simp [hkind]) (by simp [hkind])

theorem readAt_cons (id : String) (ids : List String) :
    readAt kinds (id :: ids) = readAt kinds [id] ++ readAt kinds ids := by
  unfold readAt
  rw [← List.map_append, ← List.filterMap_append]
  rfl

/-- The outputs are accepted, and the digital ones are read, one after the other. -/
theorem startup_accepts (ids : List String) {s : St} (hs : kindOf s.outputMap = kinds) : wp (startup env ids)
    (fun _ s' => (∀ id ∈ ids, ∀ kind, kinds id = some kind → Accepted kind) ∧
      Frame kinds (fun w => ReadOn s.world.reads kinds ids w.reads) s') (fun _ _ => True) s := by
  induction ids generalizing s with
  | nil =>
    refine ⟨fun id h => absurd h List.not_mem_nil, hs, ?_⟩
    simp [ReadOn, readAt]
  | cons id ids ih =>
    rw [startup, wp_bind]
    refine wp_mono (startOutput_accepts hs) ?_ fun _ _ h => h
    rintro _ s₁ ⟨hid, hkinds, hreads⟩
    refine wp_mono (ih hkinds) ?_ fun _ _ h => h
    rintro _ s₂ ⟨hids, hkinds₂, hreads₂⟩
    refine ⟨List.forall_mem_cons.2 ⟨hid, hids⟩, hkinds₂, ?_⟩
    rw [ReadOn] at hreads hreads₂ ⊢
    rw [hreads₂, hreads, readAt_cons id ids, List.append_assoc]

/-! ## The main loop -/

/-- `set_var` has an address for each variable of the outputs. -/
def Addressed (kinds : String → Option OutputKind) : Prop :=
  ∀ id kind, kinds id = some kind → ∀ var ∈ varsOf kind, HasCoil var

/-- No turn fails on an address. -/
theorem Addressed.handles (h : Addressed kinds) :
    Handles kinds (fun _ => True) (fun _ => True) (fun _ => True) (· ≠ .address) where
  toRequests := requests_reads (P := fun _ => True) fun _ _ _ _ => trivial
  feedback := by decide
  coil id kind hk var hvar := (h id kind hk var hvar).coilIn
  keepAlive := trivial

end

/-! ## Which outputs are accepted and addressed -/

theorem hasCoil_iff {var : UInt32} : HasCoil var ↔ var.toNat < 65536 := by
  have hor : (coilAddr var).toNat = var.toNat ||| 4096 := UInt32.toNat_or var 0x1000
  have hsome : HasCoil var ↔ (coilAddr var).toNat < 65536 := by
    unfold HasCoil u16TryFrom
    split_ifs with h <;> simp [h]
  rw [hsome, hor]
  constructor
  · intro h
    exact Nat.lt_of_le_of_lt Nat.left_le_or h
  · intro h
    exact Nat.or_lt_two_pow (n := 16) h (by decide)

/-- The sum does not wrap around. -/
def NoWrap (var : UInt32) : Prop := var.toNat + 0x200 < 4294967296

theorem toNat_add_iff {var : UInt32} : (var + 0x200).toNat = var.toNat + 0x200 ↔ NoWrap var := by
  have hoffset : (0x200 : UInt32).toNat = 0x200 := rfl
  rw [UInt32.toNat_add, hoffset]
  unfold NoWrap
  omega

section
variable {kinds : String → Option OutputKind} {id : String}

theorem mem_digitalVars {ids : List String} {var : UInt32} :
    var ∈ ids.filterMap (fun id => digitalVar (kinds id)) ↔
      ∃ id ∈ ids, ∃ io : WagoIO, kinds id = some (.woDigital io) ∧ io.var = var := by
  rw [List.mem_filterMap]
  refine exists_congr fun id => and_congr_right fun _ => ?_
  unfold digitalVar
  split
  · rename_i io hk
    simp [hk]
  · rename_i hk
    constructor
    · rintro ⟨⟩
    · rintro ⟨io, h, _⟩
      exact (hk io h).elim

/-- Accepted outputs have addresses, but for a sum that wraps around. -/
theorem addressed_iff (h : ∀ id kind, kinds id = some kind → Accepted kind) :
    Addressed kinds ↔ ∀ id io, kinds id = some (.woDigital io) → NoWrap io.var := by
  constructor
  · intro ha id io hk
    have hcoil := hasCoil_iff.1 (ha id _ hk io.var (by simp [varsOf]))
    unfold NoWrap
    omega
  · intro hfits id kind hk var hvar
    have haccepted := h id kind hk
    cases kind with
    | woDigital io =>
      obtain ⟨address, haddress⟩ := haccepted
      rw [List.mem_singleton.1 hvar]
      have hlt := (u16TryFrom_toNat haddress).2
      rw [toNat_add_iff.2 (hfits id io hk)] at hlt
      exact hasCoil_iff.2 (by omega)
    | woShutter io =>
      rcases List.mem_pair.1 hvar with rfl | rfl
      · exact haccepted.2
      · exact haccepted.1
    | _ => cases hvar

end

/-! ## Runs of accepted outputs -/

section
attribute [local irreducible] u16TryFrom

variable {env : Env} {w : World} {m : OutputContextMap} {order ids : List String} {s s₀ : St} {id : String}

/-- A command for a digital output without an address ends the controller. -/
theorem command_fails {io : WagoIO} (hk : kindOf s.outputMap id = some (.woDigital io)) (hcoil : ¬ HasCoil io.var)
    (value : Bool) : ∃ s', iteration env (.recv (some ⟨id, .setValue (.bool value)⟩)) s = .error .address s' := by
  have hwp : wp (iteration env (.recv (some ⟨id, .setValue (.bool value)⟩))) (fun _ _ => False)
      (fun e _ => e = .address) s := by
    obtain ⟨ctx, hl, hkind⟩ := Option.map_eq_some_iff.1 hk
    simp only [iteration, onCommand]
    rw [wp_bind, wp_get, wp_bind, wp_emit, wp_bind, wp_get]
    simp only [hl, newValue, applyValue, hkind]
    rw [wp_bind, wp_onWorld, setVar_eq_throw hcoil]
    rfl
  unfold wp at hwp
  split at hwp
  · exact hwp.elim
  · rename_i e s' heq
    exact ⟨s', by rw [heq, hwp]⟩

/-- No turn of a run fails on an address. -/
def NoAddressError (env : Env) (s₀ : St) : Prop :=
  ∀ ls s l e s', run (step env) s₀ ls = some s → enabled s l → iteration env l s = .error e s' → e ≠ .address

theorem noAddressError_iff (h : ∀ id kind, kindOf m id = some kind → Accepted kind) (h₀ : Started env w m s₀) :
    NoAddressError env s₀ ↔ ∀ id io, kindOf m id = some (.woDigital io) → NoWrap io.var := by
  rw [← addressed_iff h]
  constructor
  · intro hnone id kind hk var hvar
    have haccepted := h id kind hk
    cases kind with
    | woDigital io =>
      rw [List.mem_singleton.1 hvar]
      by_contra hcoil
      obtain ⟨s', he⟩ := command_fails (h₀.ready.kinds ▸ hk) hcoil true
      have hl : enabled s₀ (.recv (some ⟨id, .setValue (.bool true)⟩)) := h₀.ready.closed
      exact hnone [] s₀ _ _ s' rfl hl he rfl
    | woShutter io =>
      rcases List.mem_pair.1 hvar with rfl | rfl
      · exact haccepted.2
      · exact haccepted.1
    | _ => cases hvar
  · intro ha ls s l e s' hr _ he
    exact (ha.handles.iteration l).error ⟨run_kinds h₀ hr, trivial⟩ he

theorem reads_iff (ho : HMap.Enumerates order m) (hreads : ReadOn w.reads (kindOf m) order s₀.world.reads) :
    s₀.world.reads.map UInt16.toNat = w.reads.map UInt16.toNat ++
        (order.filterMap fun id => digitalVar (kindOf m id)).map (fun var => var.toNat + 0x200) ↔
      ∀ id io, kindOf m id = some (.woDigital io) → NoWrap io.var := by
  rw [hreads, List.append_cancel_left_eq, readAt, List.map_inj_left]
  constructor
  · intro h id io hk
    exact toNat_add_iff.1 (h io.var (mem_digitalVars.2 ⟨id, (ho.2 id).2 (mem_of_kindOf hk), io, hk, rfl⟩))
  · intro h var hvar
    obtain ⟨id, _, io, hk, rfl⟩ := mem_digitalVars.1 hvar
    exact toNat_add_iff.2 (h id io hk)

/-- **Outputs that are accepted at startup never fail on an address, and are read at their own, exactly when no sum
wraps around.** -/
theorem accepted_outputs_addressed_iff (ho : HMap.Enumerates order m)
    (hs : startup env order (init w m) = .ok () s₀) :
    (NoAddressError env s₀ ∧
      s₀.world.reads.map UInt16.toNat = w.reads.map UInt16.toNat ++
        (order.filterMap fun id => digitalVar (kindOf m id)).map fun var => var.toNat + 0x200) ↔
    ∀ id io, kindOf m id = some (.woDigital io) → NoWrap io.var := by
  have hinit : kindOf (init w m).outputMap = kindOf m := rfl
  obtain ⟨haccepted, _, hreads⟩ := wp_ok (startup_accepts order hinit) hs
  have hall : ∀ id kind, kindOf m id = some kind → Accepted kind := fun id kind hk =>
    haccepted id ((ho.2 id).2 (mem_of_kindOf hk)) kind hk
  have hread : ReadOn w.reads (kindOf m) order s₀.world.reads := hreads
  rw [noAddressError_iff hall ⟨order, ho, hs⟩, reads_iff ho hread, and_self]

end

/-! ## A sum that wraps around -/

/-- A lamp whose `var + 0x200` is 256. -/
def farLamp : WagoIO := ⟨"wago", "502", 0xFFFFFF00⟩

def farOutputs : OutputContextMap :=
  (∅ : OutputContextMap).insert "lamp" ⟨⟨"Lamp", "lamp", "", .woDigital farLamp, "", true, true⟩, none⟩

def farStart : St := stateAfter (startup (plcEnv 0 100) ["lamp"] (init idleWorld farOutputs))

/-- It is accepted, read at an address that is not its own, and ends the controller when it is switched on. -/
theorem far_lamp_fails : HMap.Enumerates ["lamp"] farOutputs ∧
    startup (plcEnv 0 100) ["lamp"] (init idleWorld farOutputs) = .ok () farStart ∧
    farStart.world.reads = [256] ∧ farLamp.var.toNat + 0x200 ≠ 256 ∧ ¬ NoAddressError (plcEnv 0 100) farStart := by
  have ho : HMap.Enumerates ["lamp"] farOutputs := by decide +kernel
  have hs : startup (plcEnv 0 100) ["lamp"] (init idleWorld farOutputs) = .ok () farStart := eq_ok (by decide +kernel)
  have hvar : farLamp.var.toNat = 4294967040 := rfl
  refine ⟨ho, hs, by decide +kernel, by omega, fun h => ?_⟩
  have hcoil : ¬ HasCoil farLamp.var := by
    rw [hasCoil_iff]
    omega
  have hk : kindOf farStart.outputMap "lamp" = some (.woDigital farLamp) := by decide +kernel
  obtain ⟨s', he⟩ := command_fails hk hcoil true
  have hl : enabled farStart (.recv (some ⟨"lamp", .setValue (.bool true)⟩)) := by decide +kernel
  exact h [] farStart _ _ s' rfl hl he rfl

theorem three_outputs_addressed : NoAddressError (plcEnv 0 100) threeStart ∧
    threeStart.world.reads.map UInt16.toNat = [0x205] := by
  have ho : HMap.Enumerates ["lamp", "blinds", "awning"] threeOutputs := by decide +kernel
  have hs : startup (plcEnv 0 100) ["lamp", "blinds", "awning"] (init idleWorld threeOutputs) = .ok () threeStart :=
    eq_ok (by decide +kernel)
  have hvars : ["lamp", "blinds", "awning"].filterMap (fun id => digitalVar (kindOf threeOutputs id)) = [lamp.var] := by
    decide +kernel
  have hfits : ∀ id io, kindOf threeOutputs id = some (.woDigital io) → NoWrap io.var := by
    intro id io hk
    have hmem := mem_digitalVars.2 ⟨id, (ho.2 id).2 (mem_of_kindOf hk), io, hk, rfl⟩
    rw [hvars] at hmem
    rw [List.mem_singleton.1 hmem]
    have hvar : lamp.var.toNat = 5 := rfl
    unfold NoWrap
    omega
  obtain ⟨hnone, hreads⟩ := (accepted_outputs_addressed_iff ho hs).2 hfits
  exact ⟨hnone, hreads.trans (by decide +kernel)⟩

end Calaos.Wago
