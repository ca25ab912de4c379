import Calaos.ModbusClient
import Mathlib.Data.List.Pairwise
/-!
# The pause between two switches of a relay (core/src/io/modbus_client.rs)

`write_single_coil` keeps, for each coil, the instant after its last write that succeeded, and waits for the
15 ms after it to pass. `Paused` ties this map to the whole history of requests: every successful write is over
by the instant kept for its coil. A failed write is not recorded; it leaves the map as it was, which only makes
the next write of the coil wait for the success before it.
-/
namespace Calaos

open Eff

/-! ## Time and requests, operation by operation -/

/-- Time has passed, and nothing else has happened. -/
structure Waited (w w' : World) : Prop where
  writes : w'.writes = w.writes
  last : w'.lastCoilUpdateInstant = w.lastCoilUpdateInstant
  now : w.now ≤ w'.now

theorem Waited.refl (w : World) : Waited w w := ⟨rfl, rfl, Nat.le_refl _⟩

theorem Waited.trans {a b c : World} (h : Waited a b) (h' : Waited b c) : Waited a c :=
  ⟨h'.writes.trans h.writes, h'.last.trans h.last, Nat.le_trans h.now h'.now⟩

theorem elapse_waited (env : Env) (d : Nat) (w : World) :
    wp (elapse env d) (fun _ w' => Waited w w' ∧ w.now + d ≤ w'.now) (fun _ _ => False) w := by
  simp only [elapse, wp_modify]
  exact ⟨⟨rfl, rfl, by simp only; omega⟩, by omega⟩

theorem instantNow_waited (env : Env) (w : World) :
    wp (instantNow env) (fun t w' => Waited w w' ∧ t = w'.now) (fun _ _ => False) w := by
  simp only [instantNow, wp_bind, wp_get, wp_pure]
  exact wp_mono (elapse_waited env 0 w) (fun _ _ h => ⟨h.1, trivial⟩) fun _ _ h => h

/-- After `coolDown` the pause since the instant kept for the coil is over. -/
theorem coolDown_waited (env : Env) (address : UInt16) (w : World) :
    wp (coolDown env address)
      (fun _ w' => Waited w w' ∧ ∀ t, w.lastCoilUpdateInstant.lookup address = some t → t ≤ w.now →
        t + minDurationBetweenWrite ≤ w'.now)
      (fun _ _ => False) w := by
  simp only [coolDown, wp_bind, wp_get]
  cases hl : w.lastCoilUpdateInstant.lookup address with
  | none =>
    refine ⟨Waited.refl w, ?_⟩
    rintro t ht
    cases ht
  | some instant =>
    simp only [wp_bind]
    refine wp_mono (instantNow_waited env w) ?_ fun _ _ h => h
    rintro now w₁ ⟨h₁, rfl⟩
    have hnow := h₁.now
    split
    · refine wp_mono (elapse_waited env _ w₁) ?_ fun _ _ h => h
      rintro _ w₂ ⟨h₂, hs⟩
      refine ⟨h₁.trans h₂, ?_⟩
      intro t ht hle
      cases ht
      omega
    · refine ⟨h₁, ?_⟩
      intro t ht hle
      cases ht
      omega

/-- The request `r` to write the coil was made between two worlds. -/
structure Requested (r : WriteRec) (address : UInt16) (ok : Bool) (w w' : World) : Prop where
  writes : w'.writes = w.writes ++ [r]
  addr : r.addr = address
  ok : r.ok = ok
  start : w.now ≤ r.start
  lasts : r.start ≤ r.done
  done : r.done ≤ w'.now

theorem Requested.now {r : WriteRec} {address : UInt16} {ok : Bool} {w w' : World}
    (h : Requested r address ok w w') : w.now ≤ w'.now :=
  Nat.le_trans h.start (Nat.le_trans h.lasts h.done)

theorem Requested.waited {r : WriteRec} {address : UInt16} {ok : Bool} {a b c : World}
    (h : Waited a b) (hr : Requested r address ok b c) : Requested r address ok a c :=
  ⟨by rw [hr.writes, h.writes], hr.addr, hr.ok, Nat.le_trans h.now hr.start, hr.lasts, hr.done⟩

theorem clientWriteSingleCoil_requested (env : Env) (address : UInt16) (value : Bool) (w : World) :
    wp (clientWriteSingleCoil env address value)
      (fun _ w' => (∃ r, Requested r address true w w') ∧ w'.lastCoilUpdateInstant = w.lastCoilUpdateInstant)
      (fun _ w' => (∃ r, Requested r address false w w') ∧ w'.lastCoilUpdateInstant = w.lastCoilUpdateInstant)
      w := by
  simp only [clientWriteSingleCoil, wp_bind, wp_get]
  refine wp_mono (instantNow_waited env w) ?_ fun _ _ h => h.elim
  rintro start w₁ ⟨h₁, rfl⟩
  refine wp_mono (elapse_waited env 0 w₁) ?_ fun _ _ h => h.elim
  rintro _ w₂ ⟨h₂, _⟩
  have h := h₁.trans h₂
  split
  · simp only [wp_modify]
    exact ⟨⟨_, by rw [h.writes], rfl, rfl, h₁.now, h₂.now, Nat.le_refl _⟩, h.last⟩
  · simp only [wp_bind, wp_modify, wp_throw]
    exact ⟨⟨_, by rw [h.writes], rfl, rfl, h₁.now, h₂.now, Nat.le_refl _⟩, h.last⟩

/-! ## The invariant -/

/-- Two successful writes of one coil, the second at least 15 ms after the first. -/
def Spaced (r r' : WriteRec) : Prop :=
  r.ok = true → r'.ok = true → r.addr = r'.addr → r.done + minDurationBetweenWrite ≤ r'.start

/-- The history so far is spaced, and the instants kept are past and not before the writes they are for. -/
structure Paused (w : World) : Prop where
  spaced : w.writes.Pairwise Spaced
  kept : ∀ r ∈ w.writes, r.ok = true → ∃ t, w.lastCoilUpdateInstant.lookup r.addr = some t ∧ r.done ≤ t
  past : ∀ address t, w.lastCoilUpdateInstant.lookup address = some t → t ≤ w.now

theorem Paused.waited {w w' : World} (h : Paused w) (hw : Waited w w') : Paused w' := by
  refine ⟨?_, ?_, ?_⟩
  · rw [hw.writes]
    exact h.spaced
  · rw [hw.writes, hw.last]
    exact h.kept
  · intro address t ht
    rw [hw.last] at ht
    exact Nat.le_trans (h.past address t ht) hw.now

/-- A new request is spaced from all before it, if it waits for the instant kept for its coil. -/
theorem Paused.spaced_append {w w' : World} {r : WriteRec} {address : UInt16} {ok : Bool} (h : Paused w)
    (hr : Requested r address ok w w')
    (hs : ok = true → ∀ t, w.lastCoilUpdateInstant.lookup address = some t →
      t + minDurationBetweenWrite ≤ r.start) :
    w'.writes.Pairwise Spaced := by
  rw [hr.writes]
  refine List.pairwise_append.2 ⟨h.spaced, List.pairwise_singleton _ _, ?_⟩
  intro r₀ hr₀ r' hr' hok hok' haddr
  obtain rfl := List.mem_singleton.1 hr'
  obtain ⟨t, ht, hdone⟩ := h.kept r₀ hr₀ hok
  rw [haddr, hr.addr] at ht
  have hstart := hs (hr.ok ▸ hok') t ht
  omega

/-- A write that succeeded, with its instant entered. -/
theorem Paused.wrote {w w' : World} {r : WriteRec} {address : UInt16} {t : Nat} (h : Paused w)
    (hr : Requested r address true w w')
    (hs : ∀ t, w.lastCoilUpdateInstant.lookup address = some t → t + minDurationBetweenWrite ≤ r.start)
    (hlast : w'.lastCoilUpdateInstant = w.lastCoilUpdateInstant.insert address t) (hd : r.done ≤ t)
    (ht : t ≤ w'.now) : Paused w' := by
  refine ⟨h.spaced_append hr fun _ => hs, ?_, ?_⟩
  · intro r₀ hr₀ hok
    rw [hlast]
    rw [hr.writes, List.mem_append, List.mem_singleton] at hr₀
    by_cases ha : r₀.addr = address
    · refine ⟨t, by rw [ha, Finmap.lookup_insert], ?_⟩
      rcases hr₀ with hr₀ | rfl
      · obtain ⟨t₀, ht₀, hdone⟩ := h.kept r₀ hr₀ hok
        have hstart := hs t₀ (ha ▸ ht₀)
        have hlasts := hr.lasts
        omega
      · exact hd
    · rw [Finmap.lookup_insert_of_ne _ ha]
      rcases hr₀ with hr₀ | rfl
      · exact h.kept r₀ hr₀ hok
      · exact absurd hr.addr ha
  · intro a t' ht'
    rw [hlast] at ht'
    by_cases ha : a = address
    · rw [ha, Finmap.lookup_insert] at ht'
      cases ht'
      exact ht
    · rw [Finmap.lookup_insert_of_ne _ ha] at ht'
      exact Nat.le_trans (h.past a t' ht') hr.now

/-- A write that failed. -/
theorem Paused.failed {w w' : World} {r : WriteRec} {address : UInt16} (h : Paused w)
    (hr : Requested r address false w w') (hlast : w'.lastCoilUpdateInstant = w.lastCoilUpdateInstant) :
    Paused w' := by
  refine ⟨h.spaced_append hr nofun, ?_, ?_⟩
  · intro r₀ hr₀ hok
    rw [hr.writes, List.mem_append, List.mem_singleton] at hr₀
    rw [hlast]
    rcases hr₀ with hr₀ | rfl
    · exact h.kept r₀ hr₀ hok
    · rw [hr.ok] at hok
      cases hok
  · intro a t ht
    rw [hlast] at ht
    exact Nat.le_trans (h.past a t ht) hr.now

theorem elapse_keeps (env : Env) (d : Nat) : Keeps Paused (elapse env d) := by
  intro w hw
  exact wp_mono (elapse_waited env d w) (fun _ _ h => hw.waited h.1) fun _ _ h => h.elim

/-- **`ModbusClient::write_single_coil` keeps the pause**, whether it succeeds or fails. -/
theorem writeSingleCoil_keeps (env : Env) (address : UInt16) (value : Bool) :
    Keeps Paused (writeSingleCoil env address value) := by
  intro w hw
  simp only [writeSingleCoil, wp_bind, wp_modify]
  refine wp_mono (coolDown_waited env address w) ?_ fun _ _ h => h.elim
  rintro _ w₁ ⟨h₁, hcool⟩
  have hw₁ := hw.waited h₁
  refine wp_mono (clientWriteSingleCoil_requested env address value w₁) ?_ ?_
  · rintro _ w₂ ⟨⟨r, hr⟩, hlast⟩
    refine wp_mono (instantNow_waited env w₂) ?_ fun _ _ h => h.elim
    rintro t w₃ ⟨h₃, rfl⟩
    refine hw₁.wrote (r := r) (t := w₃.now) ⟨by rw [← hr.writes, ← h₃.writes], hr.addr, hr.ok, hr.start, hr.lasts,
      Nat.le_trans hr.done h₃.now⟩ ?_ ?_ (Nat.le_trans hr.done h₃.now) (Nat.le_refl _)
    · intro t ht
      rw [h₁.last] at ht
      exact Nat.le_trans (hcool t ht (hw.past address t ht)) hr.start
    · simp only [h₃.last, hlast]
  · rintro _ w₂ ⟨⟨r, hr⟩, hlast⟩
    exact hw₁.failed hr hlast

/-! ## Any calls -/

/-- A call of `write_single_coil`, some time after the call before it. -/
structure Call where
  wait : Nat
  address : UInt16
  value : Bool

/-- The world after a call, whatever became of it. -/
def call (env : Env) (w : World) (c : Call) : World :=
  match (do elapse env c.wait; writeSingleCoil env c.address c.value : Act Unit) w with
  | .ok _ w' => w'
  | .error _ w' => w'

/-- The world after all the calls. -/
def calls (env : Env) (w : World) (cs : List Call) : World := cs.foldl (call env) w

/-- `ModbusClient::connect`: no coil was written yet. -/
def connected (now tick : Nat) (coils : Coils) : World := ⟨now, tick, coils, [], [], ∅⟩

theorem connected_paused (now tick : Nat) (coils : Coils) : Paused (connected now tick coils) := by
  refine ⟨List.Pairwise.nil, ?_, ?_⟩
  · intro r hr
    cases hr
  · intro address t ht
    rw [connected, Finmap.lookup_empty] at ht
    cases ht

theorem call_paused (env : Env) {w : World} (hw : Paused w) (c : Call) : Paused (call env w c) := by
  have hk : Keeps Paused (do elapse env c.wait; writeSingleCoil env c.address c.value : Act Unit) :=
    (elapse_keeps env c.wait).bind fun _ => writeSingleCoil_keeps env c.address c.value
  unfold call
  split
  · rename_i h
    exact hk.ok hw h
  · rename_i h
    exact hk.error hw h

/-- **Relays are never switched too fast**: of any calls of one client, failing or not, two successful writes
of one coil are at least 15 ms apart. -/
theorem calls_spaced (env : Env) (now tick : Nat) (coils : Coils) (cs : List Call) :
    (calls env (connected now tick coils) cs).writes.Pairwise fun r r' =>
      r.ok = true → r'.ok = true → r.addr = r'.addr → r.done + 15000000 ≤ r'.start := by
  have h : ∀ w, Paused w → Paused (calls env w cs) := by
    induction cs with
    | nil => exact fun _ hw => hw
    | cons c cs ih => exact fun w hw => ih _ (call_paused env hw c)
  exact (h _ (connected_paused now tick coils)).spaced

-- The second write of coil 3 waits, that of coil 4 does not.
example : ((calls ⟨fun _ => 0, fun _ => .ok, fun _ => none, fun _ => true⟩ (connected 0 0 fun _ => false)
    [⟨0, 3, true⟩, ⟨5, 4, true⟩, ⟨2, 3, false⟩]).writes.map fun r => (r.addr, r.start)) =
    [(3, 0), (4, 5), (3, 15000000)] := by decide +kernel

end Calaos
