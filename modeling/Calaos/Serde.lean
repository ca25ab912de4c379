import Calaos.Decimal
/-!
# JSON trees, and what `serde`'s derived code does with them

A decoder takes a JSON tree and fails or gives a value; which error it reports is not modelled. The
names are the attributes of `serde`: a `struct` is read from an object, whose unknown keys are ignored
and whose known keys must not come twice, or from an array with its fields in order; an internally
`tagged` enum takes its variant from one key and its content from the others; a `flatten`ed field is
read from the keys that the struct itself does not know; an `untagged` enum is the first variant that
can be read.

The text form is not modelled: a `Codec` is any pair of a printer and a parser.
-/
namespace Serde

/-- The integers `serde_json` has: those of `i64` and of `u64`. -/
structure Number where
  val : Int
  lo : -2 ^ 63 ≤ val
  hi : val < 2 ^ 64

/-- A JSON tree. A `float` is a number that is not an integer, as it was written. -/
inductive Json where
  | null
  | bool (b : Bool)
  | num (n : Number)
  | float (lexeme : String)
  | str (s : String)
  | arr (items : List Json)
  | obj (entries : List (String × Json))

/-- The entries of an object. -/
abbrev Entries := List (String × Json)

/-- A decoder. -/
abbrev De (α : Type) := Json → Option α

/-- How trees are written and read as text. -/
structure Codec where
  print : Json → String
  parse : String → Option Json

/-- All that a codec does with one tree and its text. -/
def Codec.only (text : String) (json : Json) : Codec where
  print _ := text
  parse s := if s = text then some json else none

/-! ## Encoders of the primitive types -/

def Json.ofUInt32 (n : UInt32) : Json := .num ⟨n.toNat, by omega, by have := n.toNat_lt; omega⟩

def Json.ofUInt64 (n : UInt64) : Json := .num ⟨n.toNat, by omega, by have := n.toNat_lt; omega⟩

def Json.ofInt32 (n : Int32) : Json :=
  .num ⟨n.toInt, by have := n.le_toInt; omega, by have := n.toInt_lt; omega⟩

/-! ## Decoders of the primitive types -/

def De.string : De String
  | .str s => some s
  | _ => none

def De.bool : De Bool
  | .bool b => some b
  | _ => none

/-- An unsigned type of `bits` bits. -/
def De.unsigned (bits : Nat) : De Nat
  | .num n => if 0 ≤ n.val ∧ n.val < 2 ^ bits then some n.val.toNat else none
  | _ => none

/-- A signed type of `bits + 1` bits. -/
def De.signed (bits : Nat) : De Int
  | .num n => if -2 ^ bits ≤ n.val ∧ n.val < 2 ^ bits then some n.val else none
  | _ => none

/-- `Vec<T>`. -/
def De.vec {α : Type} (item : De α) : De (List α)
  | .arr items => items.mapM item
  | _ => none

/-- `deserialize_number_from_string`: a text that `parse` accepts, or a number. -/
def De.orParsed {α : Type} (parse : String → Option α) (number : De α) : De α
  | .str s => parse s
  | json => number json

/-! ## Structs -/

/-- The value of a known key: `none` if it comes twice. -/
def field (name : String) (entries : Entries) : Option (Option Json) :=
  match entries.filter fun e => e.1 = name with
  | [] => some none
  | [(_, json)] => some (some json)
  | _ => none

/-- A field that must be there. -/
def required {α : Type} (name : String) (item : De α) (entries : Entries) : Option α := do
  item (← (← field name entries))

/-- A field with `#[serde(default)]`. -/
def defaulted {α : Type} (name : String) (default : α) (item : De α) (entries : Entries) : Option α := do
  match ← field name entries with
  | some json => item json
  | none => some default

/-- A struct with the fields `names`, from its entries. -/
def De.struct {α : Type} (names : List String) (fields : Entries → Option α) : De α
  | .obj entries => fields entries
  | .arr items => if items.length ≤ names.length then fields (names.zip items) else none
  | _ => none

/-- A struct with a flattened field: an object, whose keys outside `names` are for that field. -/
def De.flatten {α : Type} (names : List String) (fields : Entries → Entries → Option α) : De α
  | .obj entries => fields entries (entries.filter fun e => e.1 ∉ names)
  | _ => none

/-! ## Enums -/

/-- The name of a variant, as JSON text gives it. -/
def variantName : De String := De.string

/-- The name of a variant in content that was buffered before: its index will do. -/
def variantNameOrIndex (names : List String) : De String
  | .num n => if 0 ≤ n.val then names[n.val.toNat]? else none
  | json => De.string json

/-- `#[serde(tag = "..")]`: the variant, and the rest of the content. -/
def De.tagged {α : Type} (tag : String) (name : De String) (variant : String → De α) : De α
  | .obj entries => do
    variant (← name (← (← field tag entries))) (.obj (entries.filter fun e => e.1 ≠ tag))
  | .arr (json :: items) => do variant (← name json) (.arr items)
  | _ => none

/-- A variant without content. -/
def De.unit {α : Type} (a : α) : De α
  | .obj _ => some a
  | .arr [] => some a
  | _ => none

/-- `#[serde(untagged)]` with two variants. -/
def De.untagged {α : Type} (p q : De α) : De α := fun json =>
  match p json with
  | some a => some a
  | none => q json

/-! ## What is printed is read back -/

@[simp] theorem string_str (s : String) : De.string (.str s) = some s := rfl

@[simp] theorem bool_bool (b : Bool) : De.bool (.bool b) = some b := rfl

@[simp] theorem unsigned_ofUInt32 (n : UInt32) : De.unsigned 32 (.ofUInt32 n) = some n.toNat := by
  have := n.toNat_lt
  simp only [De.unsigned, Json.ofUInt32]
  rw [if_pos (by omega)]
  simp

@[simp] theorem signed_ofInt32 (n : Int32) : De.signed 31 (.ofInt32 n) = some n.toInt := by
  have := n.le_toInt
  have := n.toInt_lt
  simp only [De.signed, Json.ofInt32]
  rw [if_pos (by omega)]

theorem orParsed_ofUInt32 {α : Type} (parse : String → Option α) (number : De α) (n : UInt32) :
    De.orParsed parse number (.ofUInt32 n) = number (.ofUInt32 n) := rfl

theorem orParsed_ofInt32 {α : Type} (parse : String → Option α) (number : De α) (n : Int32) :
    De.orParsed parse number (.ofInt32 n) = number (.ofInt32 n) := rfl

/-- `json` is read back as `a` if `ok`, and cannot be read otherwise. -/
structure ReadBack {α : Type} (decode : De α) (json : Json) (a : α) (ok : Prop) : Prop where
  read : ok → decode json = some a
  fail : ¬ ok → decode json = none

/-- One item that cannot be read makes the whole list unreadable. -/
theorem ReadBack.vec {α : Type} {item : De α} {encode : α → Json} {ok : α → Prop} {as : List α}
    (h : ∀ a ∈ as, ReadBack item (encode a) a (ok a)) :
    ReadBack (De.vec item) (.arr (as.map encode)) as (∀ a ∈ as, ok a) := by
  induction as with
  | nil => exact ⟨fun _ => rfl, fun hn => absurd (by simp) hn⟩
  | cons a as ih =>
    have ha := h a (by simp)
    have ih := ih fun x hx => h x (by simp [hx])
    rw [List.map_cons]
    constructor <;> simp only [De.vec]
    · intro hok
      rw [List.forall_mem_cons] at hok
      have hrest : (as.map encode).mapM item = some as := ih.read hok.2
      rw [List.mapM_cons, ha.read hok.1, hrest]
      rfl
    · intro hno
      rw [List.forall_mem_cons, not_and_or] at hno
      rw [List.mapM_cons]
      rcases hno with hno | hno
      · rw [ha.fail hno]
        rfl
      · have hrest : (as.map encode).mapM item = none := ih.fail hno
        rw [hrest]
        cases item (encode a) <;> rfl

/-- What holds of all that the variants give holds of all that the enum gives. -/
theorem tagged_range {α : Type} {tag : String} {name : De String} {variant : String → De α} {P : α → Prop}
    (h : ∀ n json a, variant n json = some a → P a) {json : Json} {a : α}
    (ha : De.tagged tag name variant json = some a) : P a := by
  cases json with
  | obj entries =>
    simp only [De.tagged, Option.bind_eq_bind, Option.bind_eq_some_iff] at ha
    obtain ⟨_, _, _, _, n, _, hv⟩ := ha
    exact h n _ a hv
  | arr items =>
    cases items with
    | nil => cases ha
    | cons json items =>
      simp only [De.tagged, Option.bind_eq_bind, Option.bind_eq_some_iff] at ha
      obtain ⟨n, _, hv⟩ := ha
      exact h n _ a hv
  | _ => cases ha

/-! ## Flattened fields

The entries `own` of another type stand between the entries of the struct. -/

section
variable {names : List String} {front own back : Entries}

theorem field_flatten {name : String} (ho : ∀ e ∈ own, e.1 ∉ names) (hn : name ∈ names) :
    field name (front ++ own ++ back) = field name (front ++ back) := by
  have hnone : own.filter (fun e => decide (e.1 = name)) = [] :=
    List.filter_eq_nil_iff.2 fun e he h => ho e he (by rw [of_decide_eq_true h]; exact hn)
  simp only [field, List.filter_append, hnone, List.append_nil]

theorem required_flatten {α : Type} {name : String} {item : De α} (ho : ∀ e ∈ own, e.1 ∉ names) (hn : name ∈ names) :
    required name item (front ++ own ++ back) = required name item (front ++ back) := by
  rw [required, field_flatten ho hn, required]

theorem defaulted_flatten {α : Type} {name : String} {default : α} {item : De α} (ho : ∀ e ∈ own, e.1 ∉ names)
    (hn : name ∈ names) :
    defaulted name default item (front ++ own ++ back) = defaulted name default item (front ++ back) := by
  rw [defaulted, field_flatten ho hn, defaulted]

/-- The flattened field gets its own entries back. -/
theorem flatten_rest {α : Type} {fields : Entries → Entries → Option α} (ho : ∀ e ∈ own, e.1 ∉ names)
    (hf : ∀ e ∈ front, e.1 ∈ names) (hb : ∀ e ∈ back, e.1 ∈ names) :
    De.flatten names fields (.obj (front ++ own ++ back)) = fields (front ++ own ++ back) own := by
  have h₁ : front.filter (fun e => decide (e.1 ∉ names)) = [] :=
    List.filter_eq_nil_iff.2 fun e he h => of_decide_eq_true h (hf e he)
  have h₂ : own.filter (fun e => decide (e.1 ∉ names)) = own :=
    List.filter_eq_self.2 fun e he => decide_eq_true (ho e he)
  have h₃ : back.filter (fun e => decide (e.1 ∉ names)) = [] :=
    List.filter_eq_nil_iff.2 fun e he h => of_decide_eq_true h (hb e he)
  simp only [De.flatten, List.filter_append, h₁, h₂, h₃, List.nil_append, List.append_nil]

end

end Serde
