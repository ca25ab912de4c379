import Calaos.Decimal
/-!
# `IOValue`, `IOAction` and their text form (core/src/io_value.rs)

| here | there |
| --- | --- |
| `ShutterState`, `IOValue`, `IOAction` | the three enums; an `i32` payload is an `Int32` |
| `IOValue.partialCmp`     | `impl PartialOrd for IOValue`: only two integers compare |
| `toggle`                 | `toggle`, bitwise `!` on an integer |
| `IOValue.fromStr`        | `impl<T: AsRef<str>> From<T> for IOValue` |
| `IOValue.intoString`     | `impl From<&IOValue> for String` |
| `IOAction.fromStr`, `IOAction.intoString` | the two conversions of `IOAction` |

The text form has a word for a shutter that is up and one for a shutter that is down, and none for a
moving one: `intoString` sends both moving states to a resting word, so the round trip
(`fromStr_intoString`) holds exactly for the values that carry no moving state. No such value is ever
read from a text, so printing what was read is harmless (`fromStr_normal`).
-/
namespace Calaos

/-- `enum ShutterState`. -/
inductive ShutterState where
  | up
  | down
  | movingUp
  | movingDown
deriving DecidableEq, Repr

/-- `enum IOValue`. -/
inductive IOValue where
  | bool (b : Bool)
  | int (i : Int32)
  | string (s : String)
  | shutter (s : ShutterState)
deriving DecidableEq, Repr

/-- `impl PartialOrd for IOValue`: everything but two integers is incomparable. -/
def IOValue.partialCmp : IOValue → IOValue → Option Ordering
  | .int i, .int k => some (compare i.toInt k.toInt)
  | _, _ => none

/-- `enum IOAction`. -/
inductive IOAction where
  | toggle
  | stop
  | setValue (v : IOValue)
deriving DecidableEq, Repr

def upStr : String := "up"
def downStr : String := "down"
def stopStr : String := "stop"
def toggleStr : String := "toggle"

/-- `toggle`: a text has no opposite. A moving shutter is sent to the other end. -/
def toggle : IOValue → Option IOValue
  | .bool b => some (.bool !b)
  | .shutter .up => some (.shutter .down)
  | .shutter .down => some (.shutter .up)
  | .shutter .movingUp => some (.shutter .down)
  | .shutter .movingDown => some (.shutter .up)
  | .int i => some (.int (~~~i))
  | .string _ => none

/-! ## Text -/

/-- `value_str.parse::<i32>()`. -/
def parseI32 (s : String) : Option Int32 := (Decimal.parseSigned 31 s).map Int32.ofInt

/-- `IOValue::from(&str)`: integers first, then the reserved words. -/
def IOValue.fromStr (valueStr : String) : IOValue :=
  match parseI32 valueStr with
  | some i => .int i
  | none =>
    if valueStr = "false" then .bool false
    else if valueStr = "true" then .bool true
    else if valueStr = upStr then .shutter .up
    else if valueStr = downStr then .shutter .down
    else .string valueStr

/-- `IOAction::from(&str)`. -/
def IOAction.fromStr (valueStr : String) : IOAction :=
  if valueStr = toggleStr then .toggle
  else if valueStr = stopStr then .stop
  else .setValue (IOValue.fromStr valueStr)

/-- `String::from(&IOValue)`. All three of `Up`, `MovingUp` and `MovingDown` print as `"up"`. -/
def IOValue.intoString : IOValue → String
  | .bool b => if b then "true" else "false"
  | .int i => toString i.toInt
  | .string s => s
  | .shutter .up => upStr
  | .shutter .movingUp => upStr
  | .shutter .movingDown => upStr
  | .shutter .down => downStr

/-- `String::from(IOAction)`. -/
def IOAction.intoString : IOAction → String
  | .toggle => toggleStr
  | .setValue v => v.intoString
  | .stop => stopStr

theorem parseI32_toString (i : Int32) : parseI32 (toString i.toInt) = some i := by
  rw [parseI32, Decimal.parseSigned_repr i.le_toInt i.toInt_lt]
  simp

@[simp] theorem fromStr_toString (i : Int32) : IOValue.fromStr (toString i.toInt) = .int i := by
  simp only [IOValue.fromStr, parseI32_toString]

-- A reserved word is not a number, so `fromStr` reaches the words.
@[simp] theorem fromStr_upStr : IOValue.fromStr upStr = .shutter .up := by decide

@[simp] theorem fromStr_downStr : IOValue.fromStr downStr = .shutter .down := by decide

@[simp] theorem fromStr_bool (b : Bool) : IOValue.fromStr (if b then "true" else "false") = .bool b := by
  cases b <;> decide

/-- A shutter in motion, the only values the text form has no word for. -/
def IOValue.moving : IOValue → Bool
  | .shutter .movingUp | .shutter .movingDown => true
  | _ => false

/-- A value that is not a free text is read back as printed exactly when it is not in motion. -/
theorem fromStr_intoString {v : IOValue} (h : ∀ s, v ≠ .string s) :
    IOValue.fromStr v.intoString = v ↔ v.moving = false := by
  cases v with
  | bool b => simp [IOValue.intoString, IOValue.moving]
  | int i => simp only [IOValue.intoString, fromStr_toString, IOValue.moving]
  | string s => exact absurd rfl (h s)
  | shutter s => cases s <;> simp [IOValue.intoString, IOValue.moving]

/-- A moving shutter prints as one that is up, whatever its direction. -/
theorem intoString_moving {v : IOValue} (h : v.moving = true) : v.intoString = upStr := by
  cases v with
  | shutter s => cases s <;> first | rfl | cases h
  | _ => cases h

/-! ## What is read from a text, printed and read again -/

/-- Only a number may be printed in another way than it was written. -/
theorem intoString_fromStr (s : String) :
    (∃ i, IOValue.fromStr s = .int i) ∨ (IOValue.fromStr s).intoString = s := by
  unfold IOValue.fromStr
  cases parseI32 s with
  | some i => exact .inl ⟨i, rfl⟩
  | none =>
    right
    by_cases hf : s = "false"
    · subst hf; rfl
    · by_cases ht : s = "true"
      · subst ht; rfl
      · by_cases hu : s = upStr
        · subst hu; rfl
        · by_cases hd : s = downStr
          · subst hd; rfl
          · simp only [hf, ht, hu, hd, if_false, IOValue.intoString]

/-- A printed number is none of the words of an action. -/
theorem toString_ne {w : String} (hw : parseI32 w = none) (i : Int32) : toString i.toInt ≠ w := by
  rintro rfl
  rw [parseI32_toString] at hw
  cases hw

theorem IOAction.fromStr_toString (i : Int32) :
    IOAction.fromStr (toString i.toInt) = .setValue (.int i) := by
  have ht : toString i.toInt ≠ toggleStr := toString_ne (by decide) i
  have hs : toString i.toInt ≠ stopStr := toString_ne (by decide) i
  simp only [IOAction.fromStr, ht, hs, if_false, Calaos.fromStr_toString]

/-- **A text that was read keeps its meaning** when it is printed and read again, as a value and as an
action. -/
theorem fromStr_normal (s : String) :
    IOValue.fromStr (IOValue.fromStr s).intoString = IOValue.fromStr s ∧
    IOAction.fromStr (IOAction.fromStr s).intoString = IOAction.fromStr s := by
  have hv : IOValue.fromStr (IOValue.fromStr s).intoString = IOValue.fromStr s := by
    rcases intoString_fromStr s with ⟨i, hi⟩ | hs
    · rw [hi]
      exact Calaos.fromStr_toString i
    · rw [hs]
  refine ⟨hv, ?_⟩
  by_cases ht : s = toggleStr
  · subst ht; rfl
  by_cases hs : s = stopStr
  · subst hs; rfl
  have ha : IOAction.fromStr s = .setValue (IOValue.fromStr s) := by
    simp only [IOAction.fromStr, ht, hs, if_false]
  rw [ha, IOAction.intoString]
  rcases intoString_fromStr s with ⟨i, hi⟩ | he
  · rw [hi]
    exact IOAction.fromStr_toString i
  · rw [he, ha]

example : IOValue.fromStr "+007" = .int 7 ∧ (IOValue.fromStr "+007").intoString = "7" := by decide

end Calaos
