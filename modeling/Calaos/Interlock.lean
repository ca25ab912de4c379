import Calaos.WagoStart
/-!
# The two motors of a shutter are never powered together

`Interlock` is kept by every write the controller makes (`safe_interlock`): switching off cannot break
it, a digital output has a coil of its own, and a shutter is switched on only after both its coils
were switched off. So it holds after every single request of a run, also of the one an error ends.
-/
namespace Calaos.Wago

open Eff Runs

/-- No shutter of the controller has both its coils on. -/
def Interlock (m : OutputContextMap) (c : Coils) : Prop :=
  ∀ id io, IsShutter m id io → ¬(lit c io.varUp = true ∧ lit c io.varDown = true)

theorem safe_interlock {m : OutputContextMap} (hd : DistinctCoils m) : Safe m (Interlock m) where
  off var c c' hc hs id io hio := by
    have hle : ∀ v, lit c' v = true → lit c v = true := by
      intro v hv
      rw [hs.lit] at hv
      split at hv
      · cases hv
      · exact hv
    rintro ⟨hu, hdn⟩
    exact hc id io hio ⟨hle _ hu, hle _ hdn⟩
  digital id wio value c c' hk hc hs id' io hio := by
    obtain ⟨hu, hdn⟩ := hd.other hio (hio.ne_digital hk) hk (a := coilAddr wio.var) (by simp [coilsOf])
    rw [hs.lit, hs.lit, if_neg hu, if_neg hdn]
    exact hc id' io hio
  start id io command c₀ c c' hk hc hst hs id' io' hio := by
    by_cases hid : id = id'
    · subst hid
      rw [IsShutter, hk] at hio
      cases hio
      obtain ⟨hu, hdn⟩ := hst.dark
      have hne := hd.own (show IsShutter m id io from hk)
      rw [hs.lit, hs.lit, hu, hdn]
      cases command <;> simp [movement, hne, hne.symm]
    · have hon : coilAddr (movement io command).varOn ∈ coilsOf (.woShutter io) := by
        cases command <;> simp [movement, coilsOf]
      obtain ⟨hu, hdn⟩ := hd.other hio hid hk hon
      rw [hs.lit, hs.lit, if_neg hu, if_neg hdn]
      exact hc id' io' hio

theorem interlock_of_dark {m : OutputContextMap} {c : Coils} (h : ∀ id io, IsShutter m id io → Dark c io) :
    Interlock m c := by
  intro id io hio ⟨hu, _⟩
  rw [(h id io hio).1] at hu
  cases hu

section
variable {env : Env} {w : World} {m : OutputContextMap} {s₀ s : St}

/-- The invariant of the run: the interlock after every write since startup. -/
theorem kept_run (hd : DistinctCoils m) (h₀ : Started env w m s₀) {ls : List Label}
    (hr : run (step env) s₀ ls = some s) :
    Safe s.outputMap (Interlock m) ∧ Kept (Interlock m) s₀.world.writes.length s.world := by
  have hstart := h₀.ready
  have hsafe : Safe s₀.outputMap (Interlock m) := (safe_interlock hd).congr hstart.kinds
  refine run_invariant (step env)
    (I := fun t => Safe t.outputMap (Interlock m) ∧ Kept (Interlock m) s₀.world.writes.length t.world)
    ?_ ⟨hsafe, ?_⟩ hr
  · intro t l t' hi h
    have hk := wp_ok (iteration_spec env l hi.1 hi.2) (step_eq_some.1 h).2
    exact ⟨hi.1.congr hk.2.kindOf, hk.1⟩
  · refine ⟨Nat.le_refl _, interlock_of_dark fun id io => hstart.dark id io trivial, ?_⟩
    intro r hmem
    rw [List.drop_length] at hmem
    cases hmem

/-- **Shutter interlock**: after every single coil write since the startup loop, of a run in any order
of commands, expiries and keep-alives, with an error at any point, no shutter has both coils on. -/
theorem interlock (hd : DistinctCoils m) (h₀ : Started env w m s₀) (h : Visits env s₀ s) :
    ∀ r ∈ s.world.writes.drop s₀.world.writes.length, Interlock m r.after := by
  cases h with
  | between ls h => exact (kept_run hd h₀ h).2.after
  | failed ls h l hl e he =>
    obtain ⟨hsafe, hk⟩ := kept_run hd h₀ h
    exact (wp_error (iteration_spec env l hsafe hk) he).after

end

/-- A write request that fails in the middle of a reversal, after it took effect. -/
theorem interlock_failed_reversal :
    (blindsAfter (plcEnv 1000000 30) [setShutter .up, setShutter .down]).world.writes.map
        (fun r => (r.addr, r.value, r.ok)) =
      [(0x1002, false, true), (0x1001, false, true), (0x1002, false, true), (0x1001, false, true),
        (0x1001, true, true), (0x1002, false, true), (0x1001, false, false)] ∧
    ∀ r ∈ (blindsAfter (plcEnv 1000000 30) [setShutter .up, setShutter .down]).world.writes.drop
      (blindsStart (plcEnv 1000000 30)).world.writes.length, Interlock oneShutter r.after :=
  ⟨by decide, interlock (by decide) (blinds_started _)
    (.failed [setShutter .up] rfl (setShutter .down) (show _ = false from rfl) .modbus rfl)⟩

end Calaos.Wago
