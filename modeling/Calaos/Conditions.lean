import Calaos.RulesEngine
/-!
# The conditions of rules (core/src/rules_engine.rs, core/src/io_value.rs)

A condition compares the stored value of its input with its own. Equality is derived and compares all
values; the order is written by hand and compares two integers only, so that `partial_cmp` of a value with
itself may be `None`, which `PartialOrd` forbids for a type with this equality. The four operators of the order
are then as good as absent for a value that is no integer: `SUP=` and `INF=` fail even where `==` holds.
-/
namespace Calaos

/-! ## The operators -/

/-- An integer, and a greater one than the other. -/
def IOValue.Above (v w : IOValue) : Prop := ∃ i k, v = .int i ∧ w = .int k ∧ k.toInt < i.toInt

def IOValue.IsInt (v : IOValue) : Prop := ∃ i, v = .int i

/-- Two values compare if both are integers, and then as these do. -/
theorem IOValue.partialCmp_eq_some {v w : IOValue} {o : Ordering} :
    v.partialCmp w = some o ↔ ∃ i k, v = .int i ∧ w = .int k ∧ compare i.toInt k.toInt = o := by
  constructor
  · intro h
    unfold IOValue.partialCmp at h
    split at h
    · rename_i i k
      exact ⟨i, k, rfl, rfl, Option.some.inj h⟩
    · cases h
  · rintro ⟨i, k, rfl, rfl, rfl⟩
    rfl

theorem IOValue.partialCmp_gt {v w : IOValue} : v.partialCmp w = some .gt ↔ v.Above w := by
  rw [IOValue.partialCmp_eq_some]
  simp only [compare_gt_iff_gt]
  rfl

theorem IOValue.partialCmp_lt {v w : IOValue} : v.partialCmp w = some .lt ↔ w.Above v := by
  rw [IOValue.partialCmp_eq_some]
  constructor
  · rintro ⟨i, k, hv, hw, h⟩
    exact ⟨k, i, hw, hv, compare_lt_iff_lt.1 h⟩
  · rintro ⟨k, i, hw, hv, h⟩
    exact ⟨i, k, hv, hw, compare_lt_iff_lt.2 h⟩

/-- Only an integer is as great as itself. -/
theorem IOValue.partialCmp_eq {v w : IOValue} : v.partialCmp w = some .eq ↔ v = w ∧ v.IsInt := by
  rw [IOValue.partialCmp_eq_some]
  constructor
  · rintro ⟨i, k, rfl, rfl, h⟩
    obtain rfl : i = k := Int32.toInt_inj.1 (compare_eq_iff_eq.1 h)
    exact ⟨rfl, i, rfl⟩
  · rintro ⟨rfl, i, rfl⟩
    exact ⟨i, i, rfl, rfl, compare_eq_iff_eq.2 rfl⟩

theorem IOValue.Above.ne {v w : IOValue} (h : v.Above w) : v ≠ w := by
  obtain ⟨i, k, rfl, rfl, hlt⟩ := h
  intro he
  rw [IOValue.int.inj he] at hlt
  exact Int.lt_irrefl _ hlt

theorem IOValue.Above.asymm {v w : IOValue} (h : v.Above w) : ¬ w.Above v := by
  obtain ⟨i, k, rfl, rfl, hlt⟩ := h
  rintro ⟨k', i', hk, hi, hgt⟩
  obtain rfl := IOValue.int.inj hk
  obtain rfl := IOValue.int.inj hi
  omega

namespace Rules.Operator

variable {v w : IOValue}

theorem eval_equal : equal.eval v w = true ↔ v = w := by simp [eval]

theorem eval_notEqual : notEqual.eval v w = true ↔ v ≠ w := by simp [eval]

theorem eval_greater : greater.eval v w = true ↔ v.Above w := by simp [eval, IOValue.partialCmp_gt]

theorem eval_lower : lower.eval v w = true ↔ w.Above v := by simp [eval, IOValue.partialCmp_lt]

theorem eval_greaterOrEqual : greaterOrEqual.eval v w = true ↔ v.Above w ∨ v = w ∧ v.IsInt := by
  simp [eval, IOValue.partialCmp_gt, IOValue.partialCmp_eq]

theorem eval_lowerOrEqual : lowerOrEqual.eval v w = true ↔ w.Above v ∨ v = w ∧ v.IsInt := by
  simp [eval, IOValue.partialCmp_lt, IOValue.partialCmp_eq]

end Rules.Operator

/-! ## A condition of a rule -/

namespace Engine

open Rules

/-- The value stored for an input. -/
def stored (inputMap : InputSharedContextMap) (id : String) : Option IOValue :=
  (inputMap.lookup id).bind (·.value)

/-- What `should_exec` makes of the one condition that the input `id` compares so with `ref`. -/
def Passes (inputMap : InputSharedContextMap) (id : String) (operator : Operator) (ref : IOValue) : Prop :=
  shouldExec [.standard ⟨id, operator, ref⟩] inputMap = true

/-- A condition is decided by the value stored. -/
theorem passes_iff {inputMap : InputSharedContextMap} {id : String} {v : IOValue}
    (hv : stored inputMap id = some v) (operator : Operator) (ref : IOValue) :
    Passes inputMap id operator ref ↔ operator.eval v ref = true := by
  obtain ⟨context, hl, hc⟩ := Option.bind_eq_some_iff.1 hv
  have hholds : holds inputMap (.standard ⟨id, operator, ref⟩) = operator.eval v ref := by
    simp only [holds, hl, hc]
  simp only [Passes, shouldExec, List.all_cons, List.all_nil, Bool.and_true, hholds]

/-- The laws of the six operators, for the input `id` of the value `v` compared with `w`; to compare the other
way round, the input `id'` of `inputMap'` has the value `w`. -/
structure Consistent (inputMap inputMap' : InputSharedContextMap) (id id' : String) (v w : IOValue) : Prop where
  greaterOrEqual : Passes inputMap id .greaterOrEqual w ↔
    Passes inputMap id .greater w ∨ Passes inputMap id .equal w
  lowerOrEqual : Passes inputMap id .lowerOrEqual w ↔
    Passes inputMap id .lower w ∨ Passes inputMap id .equal w
  swap : Passes inputMap id .greater w ↔ Passes inputMap' id' .lower v
  greater_lower : ¬ (Passes inputMap id .greater w ∧ Passes inputMap id .lower w)
  greater_equal : ¬ (Passes inputMap id .greater w ∧ Passes inputMap id .equal w)
  lower_equal : ¬ (Passes inputMap id .lower w ∧ Passes inputMap id .equal w)
  notEqual : Passes inputMap id .notEqual w ↔ ¬ Passes inputMap id .equal w

/-- **The operators agree with each other except on two equal values that are no integers.** -/
theorem consistent_iff {inputMap inputMap' : InputSharedContextMap} {id id' : String} {v w : IOValue}
    (hv : stored inputMap id = some v) (hw : stored inputMap' id' = some w) :
    Consistent inputMap inputMap' id id' v w ↔ (v = w → v.IsInt) := by
  constructor
  · intro h he
    have hge := h.greaterOrEqual
    simp only [passes_iff hv, Operator.eval_greaterOrEqual, Operator.eval_greater, Operator.eval_equal] at hge
    rcases hge.2 (.inr he) with ha | ⟨_, hi⟩
    · exact absurd he ha.ne
    · exact hi
  · intro hi
    have hor : ∀ P : Prop, P ∨ v = w ∧ v.IsInt ↔ P ∨ v = w := fun P =>
      or_congr_right ⟨And.left, fun he => ⟨he, hi he⟩⟩
    constructor <;> simp only [passes_iff hv, passes_iff hw, Operator.eval_greaterOrEqual,
      Operator.eval_lowerOrEqual, Operator.eval_greater, Operator.eval_lower, Operator.eval_equal,
      Operator.eval_notEqual, ne_eq]
    · exact hor _
    · exact hor _
    · rintro ⟨h, h'⟩
      exact h.asymm h'
    · rintro ⟨h, he⟩
      exact h.ne he
    · rintro ⟨h, he⟩
      exact h.ne he.symm

/-- A switch that is on, and a counter that has come to 3. -/
def switchAndCounter : InputSharedContextMap :=
  ((∅ : InputSharedContextMap).insert "switch"
    ⟨⟨"Switch", "switch", "", .wiDigitalBP ⟨"10.0.0.1", "502", 4⟩, "", true, false⟩, [], some (.bool true)⟩).insert
    "counter" ⟨⟨"Counter", "counter", "", .mySensorsInputAnalog, "", true, false⟩, [], some (.int 3)⟩

theorem consistent_counter :
    stored switchAndCounter "counter" = some (.int 3) ∧
    Consistent switchAndCounter switchAndCounter "counter" "counter" (.int 3) (.int 3) := by
  have hs : stored switchAndCounter "counter" = some (.int 3) := by decide +kernel
  exact ⟨hs, (consistent_iff hs hs).2 fun _ => ⟨3, rfl⟩⟩

/-- A switch that is on is equal to `true`, and not greater than or equal to it. -/
theorem not_consistent_switch :
    Passes switchAndCounter "switch" .equal (.bool true) ∧
    ¬ Passes switchAndCounter "switch" .greaterOrEqual (.bool true) ∧
    ¬ Consistent switchAndCounter switchAndCounter "switch" "switch" (.bool true) (.bool true) := by
  have heq : Passes switchAndCounter "switch" .equal (.bool true) := by unfold Passes; decide +kernel
  have hge : ¬ Passes switchAndCounter "switch" .greaterOrEqual (.bool true) := by unfold Passes; decide +kernel
  refine ⟨heq, hge, ?_⟩
  intro h
  exact hge (h.greaterOrEqual.2 (.inr heq))

end Engine

end Calaos
