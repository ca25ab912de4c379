import Calaos.Eff
import Calaos.HashMap
import Mathlib.Logic.Function.Basic
/-!
# The Modbus client and the PLC behind it (core/src/io/modbus_client.rs)

| here | there |
| --- | --- |
| `Env`                     | everything the program does not choose: how long each operation takes, what the PLC answers, whether the feedback channel has a receiver |
| `World`                   | the clock, the coils of the PLC, the history of requests, and the client's `last_coil_update_instant` |
| `instantNow`, `sleep`     | `Instant::now()`, `tokio::time::sleep` |
| `clientWriteSingleCoil`   | **tokio-modbus boundary**: one write request; a failed one may have taken effect |
| `readDiscreteInputs`, `readDiscreteInput`, `writeSingleCoil` | the methods of `ModbusClient` |

The clock only moves forward: every operation takes `Env.delay` of its tick on top of what it asks
for, so a `sleep` lasts at least its argument. An `Instant` is a count of nanoseconds.
-/
namespace Calaos

/-- The state of every coil of the PLC. -/
abbrev Coils := UInt16 → Bool

/-- The answer to a write request. -/
inductive WriteRes where
  | ok
  | err (applied : Bool)
deriving DecidableEq, Repr

/-- What the surroundings decide, operation by operation. -/
structure Env where
  delay : Nat → Nat
  write : Nat → WriteRes
  read : Nat → Option (List Bool)
  send : Nat → Bool

/-- One write request: when it was made and when it was over, and the coils it left. -/
structure WriteRec where
  addr : UInt16
  value : Bool
  start : Nat
  done : Nat
  ok : Bool
  after : Coils

/-- The world a controller acts on. Of a read request it keeps the address. -/
structure World where
  now : Nat
  tick : Nat
  coils : Coils
  writes : List WriteRec
  reads : List UInt16
  lastCoilUpdateInstant : HMap UInt16 Nat

/-- Why a controller stops: an address that is no `u16`, a Modbus error, a feedback channel without
receivers, a panic. -/
inductive Fault where
  | address
  | modbus
  | feedback
  | panic
deriving DecidableEq, Repr

/-- An action on the world. -/
abbrev Act := EStateM Fault World

/-- `MIN_DURATION_BETWEEN_WRITE`: 15 ms. -/
def minDurationBetweenWrite : Nat := 15000000

/-- Time passes: `d`, and as much more as the surroundings take. -/
def elapse (env : Env) (d : Nat) : Act Unit :=
  modify fun w => { w with now := w.now + d + env.delay w.tick, tick := w.tick + 1 }

/-- `Instant::now()`. -/
def instantNow (env : Env) : Act Nat := do
  elapse env 0
  return (← get).now

/-- `tokio::time::sleep`. -/
def sleep (env : Env) (d : Nat) : Act Unit := elapse env d

/-- `self.client.write_single_coil(address, value).await??`. -/
def clientWriteSingleCoil (env : Env) (address : UInt16) (value : Bool) : Act Unit := do
  let start ← instantNow env
  elapse env 0
  let w ← get
  let set := Function.update w.coils address value
  let answer (ok : Bool) (coils : Coils) : World :=
    { w with coils := coils, writes := w.writes ++ [⟨address, value, start, w.now, ok, coils⟩] }
  match env.write w.tick with
  | .ok => modify fun _ => answer true set
  | .err applied => do
    modify fun _ => answer false (if applied then set else w.coils)
    throw .modbus

/-- `ModbusClient::read_discrete_inputs`. -/
def readDiscreteInputs (env : Env) (address _quantity : UInt16) : Act (List Bool) := do
  elapse env 0
  modify fun w => { w with reads := w.reads ++ [address] }
  match env.read (← get).tick with
  | some res => pure res
  | none => throw .modbus

/-- `ModbusClient::read_discrete_input`: `values[0]`. -/
def readDiscreteInput (env : Env) (address : UInt16) : Act Bool := do
  match ← readDiscreteInputs env address 1 with
  | value :: _ => pure value
  | [] => throw .panic

/-- The first half of `write_single_coil`: a coil written less than 15 ms ago is waited for. -/
def coolDown (env : Env) (address : UInt16) : Act Unit := do
  match (← get).lastCoilUpdateInstant.lookup address with
  | some instant =>
    let deltaNow := (← instantNow env) - instant
    if deltaNow < minDurationBetweenWrite then sleep env (minDurationBetweenWrite - deltaNow)
    else pure ()
  | none => pure ()

/-- `ModbusClient::write_single_coil`. -/
def writeSingleCoil (env : Env) (address : UInt16) (value : Bool) : Act Unit := do
  coolDown env address
  clientWriteSingleCoil env address value
  let now ← instantNow env
  modify fun w => { w with lastCoilUpdateInstant := w.lastCoilUpdateInstant.insert address now }

/-! ## What the operations do to the coils -/

open Eff

/-- The world moved on without a write. -/
structure Idle (w w' : World) : Prop where
  coils : w'.coils = w.coils
  writes : w'.writes = w.writes
  now : w.now ≤ w'.now

theorem Idle.refl (w : World) : Idle w w := ⟨rfl, rfl, Nat.le_refl _⟩

theorem Idle.trans {a b c : World} (h : Idle a b) (h' : Idle b c) : Idle a c :=
  ⟨h'.coils.trans h.coils, h'.writes.trans h.writes, Nat.le_trans h.now h'.now⟩

/-- One request was made, and `r` records it. -/
structure Wrote (r : WriteRec) (w w' : World) : Prop where
  coils : w'.coils = r.after
  writes : w'.writes = w.writes ++ [r]
  now : w.now ≤ w'.now

theorem Wrote.idle_left {a b c : World} {r : WriteRec} (h' : Wrote r b c) (h : Idle a b) : Wrote r a c :=
  ⟨h'.coils, by rw [h'.writes, h.writes], Nat.le_trans h.now h'.now⟩

theorem Wrote.idle_right {a b c : World} {r : WriteRec} (h : Wrote r a b) (h' : Idle b c) : Wrote r a c :=
  ⟨h'.coils.trans h.coils, by rw [h'.writes, h.writes], Nat.le_trans h.now h'.now⟩

theorem elapse_spec (env : Env) (d : Nat) (w : World) :
    wp (elapse env d) (fun _ w' => Idle w w') (fun _ _ => False) w := by
  simp only [elapse, wp_modify]
  exact ⟨rfl, rfl, by simp only; omega⟩

theorem instantNow_spec (env : Env) (w : World) :
    wp (instantNow env) (fun t w' => Idle w w' ∧ t = w'.now) (fun _ _ => False) w := by
  simp only [instantNow, wp_bind, wp_get, wp_pure]
  exact wp_mono (elapse_spec env 0 w) (fun _ _ h => ⟨h, trivial⟩) fun _ _ h => h

theorem coolDown_spec (env : Env) (address : UInt16) (w : World) :
    wp (coolDown env address) (fun _ w' => Idle w w') (fun _ _ => False) w := by
  simp only [coolDown, wp_bind, wp_get]
  cases w.lastCoilUpdateInstant.lookup address with
  | none => exact Idle.refl w
  | some instant =>
    simp only [wp_bind]
    refine wp_mono (instantNow_spec env w) ?_ fun _ _ h => h
    intro t w₁ h₁
    split
    · exact wp_mono (elapse_spec env _ w₁) (fun _ w₂ h₂ => h₁.1.trans h₂) fun _ _ h => h
    · exact h₁.1

theorem clientWriteSingleCoil_spec (env : Env) (address : UInt16) (value : Bool) (w : World) :
    wp (clientWriteSingleCoil env address value)
      (fun _ w' => ∃ r, Wrote r w w' ∧ r.after = Function.update w.coils address value)
      (fun _ w' => ∃ r, Wrote r w w' ∧ (r.after = Function.update w.coils address value ∨ r.after = w.coils)) w := by
  simp only [clientWriteSingleCoil, wp_bind, wp_get]
  refine wp_mono (instantNow_spec env w) ?_ fun _ _ h => h.elim
  intro start w₁ h₁
  refine wp_mono (elapse_spec env 0 w₁) ?_ fun _ _ h => h.elim
  intro _ w₂ h₂
  have hi : Idle w w₂ := h₁.1.trans h₂
  split
  · simp only [wp_modify]
    exact ⟨_, ⟨rfl, by rw [hi.writes], hi.now⟩, by rw [hi.coils]⟩
  · rename_i applied _
    simp only [wp_bind, wp_modify, wp_throw]
    refine ⟨_, ⟨rfl, by rw [hi.writes], hi.now⟩, ?_⟩
    cases applied
    · right; simp [hi.coils]
    · left; simp [hi.coils]

/-- **`ModbusClient::write_single_coil`**: one request whatever the waiting, and on success the coil
has the value. -/
theorem writeSingleCoil_spec (env : Env) (address : UInt16) (value : Bool) (w : World) :
    wp (writeSingleCoil env address value)
      (fun _ w' => ∃ r, Wrote r w w' ∧ r.after = Function.update w.coils address value)
      (fun _ w' => ∃ r, Wrote r w w' ∧ (r.after = Function.update w.coils address value ∨ r.after = w.coils)) w := by
  simp only [writeSingleCoil, wp_bind, wp_modify]
  refine wp_mono (coolDown_spec env address w) ?_ fun _ _ h => h.elim
  intro _ w₁ h₁
  refine wp_mono (clientWriteSingleCoil_spec env address value w₁) ?_ ?_
  · intro _ w₂ h₂
    obtain ⟨r, hr, ha⟩ := h₂
    refine wp_mono (instantNow_spec env w₂) ?_ fun _ _ h => h.elim
    intro t w₃ h₃
    have hw := (hr.idle_left h₁).idle_right h₃.1
    exact ⟨r, ⟨hw.coils, hw.writes, hw.now⟩, by rw [ha, h₁.coils]⟩
  · intro _ w₂ h₂
    obtain ⟨r, hr, ha⟩ := h₂
    exact ⟨r, hr.idle_left h₁, by rwa [h₁.coils] at ha⟩

theorem readDiscreteInputs_spec (env : Env) (address quantity : UInt16) (w : World) :
    wp (readDiscreteInputs env address quantity) (fun _ w' => Idle w w') (fun _ w' => Idle w w') w := by
  simp only [readDiscreteInputs, wp_bind, wp_modify, wp_get]
  refine wp_mono (elapse_spec env 0 w) ?_ fun _ _ h => h.elim
  intro _ w₁ h₁
  have hi : Idle w { w₁ with reads := w₁.reads ++ [address] } := ⟨h₁.coils, h₁.writes, h₁.now⟩
  split
  · exact hi
  · exact hi

theorem readDiscreteInput_spec (env : Env) (address : UInt16) (w : World) :
    wp (readDiscreteInput env address) (fun _ w' => Idle w w') (fun _ w' => Idle w w') w := by
  simp only [readDiscreteInput, wp_bind]
  refine wp_mono (readDiscreteInputs_spec env address 1 w) ?_ fun _ _ h => h
  intro values w₁ h₁
  cases values with
  | nil => exact h₁
  | cons value _ => exact h₁

end Calaos
