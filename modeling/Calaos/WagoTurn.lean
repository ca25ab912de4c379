import Calaos.WagoStart
/-!
# A turn of the Wago controller, piece by piece

What a turn keeps, and how it may fail, follows from what its requests keep. `Requests` says this of the requests at
some addresses, `Handles` of those that the outputs of a controller need.
-/
namespace Calaos.Wago

open Eff

/-! ## Requests of the client -/

/-- `J` depends on the requests alone. It stays true after a write at an address in `W` and a read at one in `R`. -/
structure Requests (W R : UInt16 → Prop) (J : World → Prop) (F : Fault → Prop) : Prop where
  idle : ∀ w w', J w → w'.writes = w.writes → w'.reads = w.reads → J w'
  wrote : ∀ w w' r, J w → W r.addr → w'.writes = w.writes ++ [r] → w'.reads = w.reads → J w'
  read : ∀ w w' address, J w → R address → w'.writes = w.writes → w'.reads = w.reads ++ [address] → J w'
  modbus : F .modbus
  panic : F .panic

section
variable {W R : UInt16 → Prop} {J : World → Prop} {F : Fault → Prop} {env : Env} {address : UInt16} {var : UInt32}
  {value : Bool}

theorem Requests.elapse (h : Requests W R J F) (d : Nat) : Holds J F (elapse env d) :=
  .modify fun w hw => h.idle w _ hw rfl rfl

theorem Requests.instantNow (h : Requests W R J F) : Holds J F (instantNow env) :=
  (h.elapse 0).bind fun _ => .get_bind fun _ _ => .pure _

theorem Requests.coolDown (h : Requests W R J F) (address : UInt16) : Holds J F (coolDown env address) := by
  refine .get_bind fun w _ => ?_
  cases w.lastCoilUpdateInstant.lookup address with
  | none => exact .pure _
  | some instant =>
    refine h.instantNow.bind fun now => ?_
    dsimp only
    split
    · exact h.elapse _
    · exact .pure _

theorem Requests.clientWriteSingleCoil (h : Requests W R J F) (ha : W address) :
    Holds J F (clientWriteSingleCoil env address value) := by
  unfold Calaos.clientWriteSingleCoil
  refine h.instantNow.bind fun start => (h.elapse 0).bind fun _ => .get_bind fun w hw => ?_
  dsimp only
  split
  · exact .modify fun _ _ => h.wrote w _ _ hw ha rfl rfl
  · refine .bind (.modify fun _ _ => ?_) fun _ => .throw h.modbus
    exact h.wrote w _ _ hw ha rfl rfl

theorem Requests.writeSingleCoil (h : Requests W R J F) (ha : W address) :
    Holds J F (writeSingleCoil env address value) :=
  (h.coolDown address).bind fun _ => (h.clientWriteSingleCoil ha).bind fun _ => h.instantNow.bind fun _ =>
    .modify fun w hw => h.idle w _ hw rfl rfl

theorem Requests.readDiscreteInputs (h : Requests W R J F) (quantity : UInt16) (ha : R address) :
    Holds J F (readDiscreteInputs env address quantity) := by
  refine (h.elapse 0).bind fun _ => .bind (.modify fun w hw => ?_) fun _ => .get_bind fun w _ => ?_
  · exact h.read w _ address hw ha rfl rfl
  · split
    · exact .pure _
    · exact .throw h.modbus

theorem Requests.readVar (h : Requests W R J F) (ha : ∀ address, u16TryFrom (var + 0x200) = some address → R address)
    (hnone : F .address) : Holds J F (readVar env var) := by
  unfold Wago.readVar
  split
  · rename_i address heq
    refine (h.readDiscreteInputs 1 (ha address heq)).bind fun values => ?_
    cases values with
    | nil => exact .throw h.panic
    | cons value _ => exact .pure _
  · exact .throw hnone

/-- The address of the coil, if there is one, is in `W`; if there is none, that is an error in `F`. -/
structure CoilIn (W : UInt16 → Prop) (F : Fault → Prop) (var : UInt32) : Prop where
  address : ∀ address, u16TryFrom (coilAddr var) = some address → W address
  none : u16TryFrom (coilAddr var) = none → F .address

theorem Requests.setVar (h : Requests W R J F) (hcoil : CoilIn W F var) : Holds J F (setVar env var value) := by
  unfold Wago.setVar
  split
  · rename_i address heq
    exact h.writeSingleCoil (hcoil.address address heq)
  · rename_i heq
    exact .throw (hcoil.none heq)

theorem Requests.stopShutter (h : Requests W R J F) {io : WagoIOUpDown} (hdown : CoilIn W F io.varDown)
    (hup : CoilIn W F io.varUp) : Holds J F (stopShutter env io) :=
  (h.setVar hdown).bind fun _ => h.setVar hup

theorem Requests.fromNow (h : Requests W R J F) (duration : Duration) (targetState : IOValue) :
    Holds J F (Task.fromNow env duration targetState) := by
  refine h.instantNow.bind fun now => ?_
  dsimp only
  split
  · exact .pure _
  · exact .throw h.panic

theorem Requests.modbusKeepAlive (h : Requests W R J F) (ha : R 0) : Holds J F (modbusKeepAlive env) :=
  (h.readDiscreteInputs 1 ha).bind fun _ => .pure _

end

/-! ## Pieces of the controller -/

/-- The variables of an output. -/
def varsOf : OutputKind → List UInt32
  | .woDigital io => [io.var]
  | .woShutter io => [io.varUp, io.varDown]
  | _ => []

/-- The outputs are of these kinds, and `J` holds of the world. -/
structure Frame (kinds : String → Option OutputKind) (J : World → Prop) (s : St) : Prop where
  kinds : kindOf s.outputMap = kinds
  world : J s.world

/-- The requests of a controller that has outputs of these kinds. -/
structure Handles (kinds : String → Option OutputKind) (W R : UInt16 → Prop) (J : World → Prop)
    (F : Fault → Prop) : Prop extends Requests W R J F where
  feedback : F .feedback
  coil : ∀ id kind, kinds id = some kind → ∀ var ∈ varsOf kind, CoilIn W F var
  keepAlive : R 0

section
-- Unfolding a request must not end in 32-bit arithmetic on an unknown variable.
attribute [local irreducible] u16TryFrom

variable {kinds : String → Option OutputKind} {W R : UInt16 → Prop} {J : World → Prop} {F : Fault → Prop} {env : Env}
  {id : String}

theorem Frame.kind {s : St} (h : Frame kinds J s) {ctx : OutputContext} (hl : s.outputMap.lookup id = some ctx) :
    kinds id = some ctx.output.kind := by
  rw [← h.kinds, kindOf, hl]
  rfl

theorem holds_onWorld {α : Type} {act : Act α} (h : Holds J F act) : Holds (Frame kinds J) F (onWorld act) :=
  .zoom h (fun _ hs => hs.world) fun _ _ hs hw => ⟨hs.kinds, hw⟩

theorem holds_emit (e : Event) : Holds (Frame kinds J) F (emit e) := .modify fun _ h => ⟨h.kinds, h.world⟩

theorem Requests.sendFeedback (h : Requests W R J F) (hfeedback : F .feedback) (data : IOData) :
    Holds (Frame kinds J) F (sendFeedback env data) := by
  refine (holds_onWorld (h.elapse 0)).bind fun _ => .get_bind fun s _ => ?_
  split
  · exact .modify fun _ hs => ⟨hs.kinds, hs.world⟩
  · exact .throw hfeedback

theorem Requests.updateState (h : Requests W R J F) (hfeedback : F .feedback) (value : IOValue) :
    Holds (Frame kinds J) F (updateState env id value) := by
  refine .bind (.modify fun s hs => ?_) fun _ => h.sendFeedback hfeedback _
  exact ⟨(kindOf_setValue s.outputMap id value).trans hs.kinds, hs.world⟩

theorem Handles.stop (h : Handles kinds W R J F) {io : WagoIOUpDown} (hk : kinds id = some (.woShutter io)) :
    Holds (Frame kinds J) F (onWorld (stopShutter env io)) :=
  holds_onWorld (h.stopShutter (h.coil id _ hk _ (by simp [varsOf])) (h.coil id _ hk _ (by simp [varsOf])))

theorem Handles.startShutter (h : Handles kinds W R J F) {io : WagoIOUpDown} (hk : kinds id = some (.woShutter io))
    (command : ShutterState) : Holds (Frame kinds J) F (startShutter env id io (movement io command)) := by
  have hon : (movement io command).varOn ∈ varsOf (.woShutter io) := by cases command <;> simp [movement, varsOf]
  refine (h.stop hk).bind fun _ => (holds_onWorld (h.setVar (h.coil id _ hk _ hon))).bind fun _ =>
    .get_bind fun s _ => (holds_emit _).bind fun _ => (holds_onWorld (h.fromNow _ _)).bind fun task => ?_
  exact .bind (.modify fun _ hs => ⟨hs.kinds, hs.world⟩) fun _ => h.updateState h.feedback _

theorem Handles.haltShutter (h : Handles kinds W R J F) {io : WagoIOUpDown} (hk : kinds id = some (.woShutter io)) :
    Holds (Frame kinds J) F (haltShutter env id io) :=
  (h.stop hk).bind fun _ => .bind (.modify fun _ hs => ⟨hs.kinds, hs.world⟩) fun _ => h.updateState h.feedback _

theorem Handles.applyValue (h : Handles kinds W R J F) {ctx : OutputContext} (hkind : kinds id = some ctx.output.kind)
    (newValue : Option IOValue) : Holds (Frame kinds J) F (applyValue env id ctx newValue) := by
  unfold Wago.applyValue
  cases hk : ctx.output.kind with
  | hueOutputLightRGB => exact .pure _
  | mySensorsOutputShutterSmart => exact .pure _
  | woDigital io =>
    rw [hk] at hkind
    simp only
    split
    · exact (holds_onWorld (h.setVar (h.coil id _ hkind _ (by simp [varsOf])))).bind fun _ =>
        h.updateState h.feedback _
    · exact .pure _
  | woShutter io =>
    rw [hk] at hkind
    simp only
    split
    · exact h.startShutter hkind _
    · exact h.haltShutter hkind

theorem Handles.onCommand (h : Handles kinds W R J F) (d : IODataAction) :
    Holds (Frame kinds J) F (onCommand env d) := by
  refine .get_bind fun _ _ => (holds_emit _).bind fun _ => .get_bind fun s hs => ?_
  cases hl : s.outputMap.lookup d.id with
  | none => exact .pure _
  | some ctx =>
    simp only
    split
    · exact .pure _
    · exact h.applyValue (hs.kind hl) _

theorem Handles.expireTask (h : Handles kinds W R J F) (now : Nat) :
    Holds (Frame kinds J) F (expireTask env now id) := by
  refine .get_bind fun s _ => ?_
  cases s.waitTask.lookup id with
  | none => exact .pure _
  | some task =>
    simp only
    split
    · exact .pure _
    · refine .get_bind fun s hs => ?_
      cases hl : s.outputMap.lookup id with
      | none => exact holds_emit _
      | some ctx =>
        have hkind := hs.kind hl
        simp only
        cases hk : ctx.output.kind with
        | hueOutputLightRGB => exact holds_emit _
        | woDigital io => exact holds_emit _
        | mySensorsOutputShutterSmart => exact holds_emit _
        | woShutter io =>
          rw [hk] at hkind
          exact (h.stop hkind).bind fun _ => (h.updateState h.feedback _).bind fun _ => holds_emit _

theorem Handles.expireTasks (h : Handles kinds W R J F) (now : Nat) :
    ∀ ids : List String, Holds (Frame kinds J) F (expireTasks env now ids)
  | [] => .pure _
  | _ :: ids => (h.expireTask now).bind fun _ => h.expireTasks now ids

/-- **A turn keeps what its requests keep, and fails as they do.** -/
theorem Handles.iteration (h : Handles kinds W R J F) (l : Label) : Holds (Frame kinds J) F (iteration env l) := by
  cases l with
  | recv command =>
    cases command with
    | none => exact .modify fun _ hs => ⟨hs.kinds, hs.world⟩
    | some d => exact h.onCommand d
  | expiry order =>
    exact (holds_onWorld h.instantNow).bind fun now => (h.expireTasks now order).bind fun _ =>
      .modify fun _ hs => ⟨hs.kinds, hs.world⟩
  | keepAlive => exact holds_onWorld (h.modbusKeepAlive h.keepAlive)

end

end Calaos.Wago
