import Calaos.Decimal
/-!
# The parser combinators of `nom` that work on complete text

A parser takes the text that is left and gives a value and the new rest, or fails. All its failures
are recoverable, so `alt` tries its second parser after any of them. What a failure reports is not
modelled.

Each combinator has one lemma (`…_eq_some`) that says what text it accepts: the text read, followed by
the rest. `digit1` reads as far as the digits go, so its rest does not begin with one.
-/
namespace Nom

/-- `IResult<&str, O>` as a function of the input. -/
abbrev Parser := StateT (List Char) Option

/-- `nom::bytes::complete::tag`. -/
def tag (t : String) : Parser Unit := fun input =>
  if t.toList.isPrefixOf input then some ((), input.drop t.length) else none

/-- `nom::character::complete::digit1`. -/
def digit1 : Parser (List Char) := fun input =>
  match input.takeWhile Char.isDigit with
  | [] => none
  | digits => some (digits, input.dropWhile Char.isDigit)

/-- `nom::combinator::map_res`. -/
def mapRes {α β : Type} (parser : Parser α) (f : α → Option β) : Parser β := do
  let a ← parser
  (f a : Option β)

/-- `nom::branch::alt` of two parsers. -/
def alt {α : Type} (p q : Parser α) : Parser α := fun input =>
  match p input with
  | some res => some res
  | none => q input

/-! ## What is accepted -/

variable {α β : Type}

theorem pure_eq_some {a : α} {input : List Char} {r : α × List Char} :
    (pure a : Parser α) input = some r ↔ r = (a, input) := by
  rw [show (pure a : Parser α) input = some (a, input) from rfl, Option.some.injEq]
  exact eq_comm

theorem bind_eq_some {p : Parser α} {f : α → Parser β} {input : List Char} {r : β × List Char} :
    (p >>= f) input = some r ↔ ∃ a mid, p input = some (a, mid) ∧ f a mid = some r := by
  simp only [bind, StateT.bind, Option.bind_eq_some_iff]
  constructor
  · rintro ⟨⟨a, mid⟩, hp, hf⟩
    exact ⟨a, mid, hp, hf⟩
  · rintro ⟨a, mid, hp, hf⟩
    exact ⟨(a, mid), hp, hf⟩

theorem map_eq_some {p : Parser α} {f : α → β} {input rest : List Char} {b : β} :
    (f <$> p) input = some (b, rest) ↔ ∃ a, p input = some (a, rest) ∧ f a = b := by
  rw [map_eq_pure_bind, bind_eq_some]
  constructor
  · rintro ⟨a, mid, hp, hf⟩
    obtain ⟨rfl, rfl⟩ := Prod.mk.inj (pure_eq_some.1 hf)
    exact ⟨a, hp, rfl⟩
  · rintro ⟨a, hp, rfl⟩
    exact ⟨a, rest, hp, pure_eq_some.2 rfl⟩

theorem alt_eq_some {p q : Parser α} {input : List Char} {r : α × List Char} :
    alt p q input = some r ↔ p input = some r ∨ p input = none ∧ q input = some r := by
  unfold alt
  cases h : p input with
  | none => simp
  | some r' => simp

theorem tag_eq_some {t : String} {input rest : List Char} {u : Unit} :
    tag t input = some (u, rest) ↔ input = t.toList ++ rest := by
  unfold tag
  split
  · rename_i h
    obtain ⟨tl, rfl⟩ := List.isPrefixOf_iff_prefix.1 h
    simp [← String.length_toList]
  · rename_i h
    constructor
    · intro hn
      cases hn
    · rintro rfl
      exact absurd (List.isPrefixOf_iff_prefix.2 (List.prefix_append _ _)) h

/-- A text that begins with a digit. -/
def StartsWithDigit (cs : List Char) : Prop := ∃ c ∈ cs.head?, c.isDigit = true

theorem digit1_eq_some {input ds rest : List Char} :
    digit1 input = some (ds, rest) ↔
      input = ds ++ rest ∧ ds ≠ [] ∧ (∀ c ∈ ds, c.isDigit = true) ∧ ¬ StartsWithDigit rest := by
  constructor
  · intro h
    unfold digit1 at h
    split at h
    · cases h
    · rename_i hne
      obtain ⟨rfl, rfl⟩ := Prod.mk.inj (Option.some.inj h)
      refine ⟨List.takeWhile_append_dropWhile.symm, hne, List.all_eq_true.1 List.all_takeWhile, ?_⟩
      rintro ⟨c, hc, hd⟩
      have hnot := List.head?_dropWhile_not Char.isDigit input
      rw [Option.mem_def.1 hc] at hnot
      exact absurd hd (by simpa using hnot)
  · rintro ⟨rfl, hne, hds, hrest⟩
    -- Maximal munch: all of `ds`, and nothing of what follows.
    have hnil : rest.takeWhile Char.isDigit = [] ∧ rest.dropWhile Char.isDigit = rest := by
      cases rest with
      | nil => exact ⟨rfl, rfl⟩
      | cons c cs =>
        have hc : ¬ c.isDigit = true := fun hd => hrest ⟨c, rfl, hd⟩
        simp [hc]
    have htake : (ds ++ rest).takeWhile Char.isDigit = ds := by
      rw [List.takeWhile_append_of_pos hds, hnil.1, List.append_nil]
    have hdrop : (ds ++ rest).dropWhile Char.isDigit = rest := by
      rw [List.dropWhile_append_of_pos hds, hnil.2]
    unfold digit1
    rw [htake, hdrop]
    split
    · exact absurd rfl hne
    · rfl

theorem mapRes_eq_some {p : Parser α} {f : α → Option β} {input rest : List Char} {b : β} :
    mapRes p f input = some (b, rest) ↔ ∃ a, p input = some (a, rest) ∧ f a = some b := by
  unfold mapRes
  rw [bind_eq_some]
  constructor
  · rintro ⟨a, mid, hp, hf⟩
    cases hfa : f a with
    | none => rw [hfa] at hf; cases hf
    | some b' =>
      rw [hfa] at hf
      obtain ⟨rfl, rfl⟩ := Prod.mk.inj (Option.some.inj hf)
      exact ⟨a, hp, hfa⟩
  · rintro ⟨a, hp, hf⟩
    refine ⟨a, rest, hp, ?_⟩
    rw [hf]
    rfl

end Nom
