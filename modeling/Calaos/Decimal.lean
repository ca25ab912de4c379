import Mathlib.Tactic.Ring
/-!
# Decimal integers as `str::parse` reads them and `to_string` prints them

`std`'s `FromStr` for the fixed-width integers accepts an optional sign (`+` for every type, `-` for
the signed ones), then one or more ASCII digits, leading zeros allowed; a value that does not fit is
an error like any other. `to_string` prints the canonical decimal. The round trips are the only
facts the callers need: what is printed is read back.
-/
namespace Decimal

/-- One or more ASCII digits, read in base ten. -/
def digits (cs : List Char) : Option Nat :=
  if cs ≠ [] ∧ cs.all Char.isDigit then some (Nat.ofDigitChars 10 cs 0) else none

/-- `str::parse` for an unsigned type of `bits` bits. -/
def parseUnsigned (bits : Nat) (s : String) : Option Nat :=
  let ds := match s.toList with
    | '+' :: ds => ds
    | ds => ds
  (digits ds).filter (· < 2 ^ bits)

/-- `str::parse` for a signed type of `bits + 1` bits. -/
def parseSigned (bits : Nat) (s : String) : Option Int :=
  match s.toList with
  | '-' :: ds => ((digits ds).filter (· ≤ 2 ^ bits)).map fun n => -(n : Int)
  | '+' :: ds => ((digits ds).filter (· < 2 ^ bits)).map Int.ofNat
  | ds => ((digits ds).filter (· < 2 ^ bits)).map Int.ofNat

theorem digits_toDigits (n : Nat) : digits (Nat.toDigits 10 n) = some n := by
  have hd : (Nat.toDigits 10 n).all Char.isDigit := by
    simp only [List.all_eq_true]
    intro c hc
    exact Nat.isDigit_of_mem_toDigits (by decide) (by decide) hc
  simp [digits, hd, Nat.toDigits_ne_nil]

/-- A printed number never starts with a sign. -/
theorem toDigits_cons_ne {n : Nat} {c : Char} {cs : List Char} (h : Nat.toDigits 10 n = c :: cs) :
    c ≠ '+' ∧ c ≠ '-' := by
  have hc : c.isDigit := Nat.isDigit_of_mem_toDigits (b := 10) (n := n) (by decide) (by decide) (by simp [h])
  constructor <;> rintro rfl <;> exact absurd hc (by decide)

theorem parseSigned_repr_nonneg {bits n : Nat} (h : n < 2 ^ bits) :
    parseSigned bits n.repr = some (n : Int) := by
  simp only [parseSigned, Nat.toList_repr]
  split
  · rename_i ds hds
    exact absurd rfl (toDigits_cons_ne hds).2
  · rename_i ds hds
    exact absurd rfl (toDigits_cons_ne hds).1
  · simp [digits_toDigits, Option.filter, h]

/-- `s.parse() == Ok(i)` for `s = i.to_string()`. -/
theorem parseSigned_repr {bits : Nat} {i : Int} (h₁ : -2 ^ bits ≤ i) (h₂ : i < 2 ^ bits) :
    parseSigned bits (toString i) = some i := by
  rw [Int.toString_eq_repr, Int.repr_eq_if]
  by_cases h0 : 0 ≤ i
  · obtain ⟨n, rfl⟩ := Int.eq_ofNat_of_zero_le h0
    simp only [h0, if_true, Int.toNat_natCast]
    exact parseSigned_repr_nonneg (by exact_mod_cast h₂)
  · obtain ⟨n, hn⟩ := Int.eq_ofNat_of_zero_le (show 0 ≤ -i by omega)
    have hi : i = -(n : Int) := by omega
    subst hi
    simp only [h0, if_false, Int.neg_neg, Int.toNat_natCast]
    have hl : ("-" ++ n.repr).toList = '-' :: Nat.toDigits 10 n := by
      simp [String.toList_append, Nat.toList_repr]
    have hle : n ≤ 2 ^ bits := by
      have : (n : Int) ≤ (2 : Int) ^ bits := by omega
      exact_mod_cast this
    simp [parseSigned, hl, digits_toDigits, Option.filter, hle]

end Decimal
