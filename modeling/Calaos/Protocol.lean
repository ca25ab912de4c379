import Calaos.Nom
/-!
# The Wago protocol (core/src/calaos_protocol.rs)

Requests that a PLC or a client sends in one datagram. `parse_request` does not look at what follows a
request. `WagoIntText` and `DiscoverText` are its grammar, and `parseRequest_grammar` says that it accepts
exactly that: a number that does not fit in 32 bits is no number, and no second reading is tried.
-/
namespace Calaos.Protocol

open Nom

/-- `struct WagoData`. -/
structure WagoData where
  var : UInt32
  value : UInt32
deriving DecidableEq

/-- `calaos_protocol::Request`. -/
inductive Request where
  | wagoInt (data : WagoData)
  | discover
deriving DecidableEq

/-- `s.parse::<u32>()`. -/
def parseU32 (s : List Char) : Option UInt32 :=
  (Decimal.parseUnsigned 32 (String.ofList s)).map UInt32.ofNat

/-- `get_wago_int`. -/
def getWagoInt : Parser WagoData := do
  tag "WAGO INT "
  let var ← mapRes digit1 parseU32
  tag " "
  let value ← mapRes digit1 parseU32
  return ⟨var, value⟩

/-- `get_discover`. -/
def getDiscover : Parser Unit := tag "CALAOS_DISCOVER"

/-- `get_any`. -/
def getAny : Parser Request := alt (Request.wagoInt <$> getWagoInt) ((fun _ => .discover) <$> getDiscover)

/-- `parse_request`. -/
def parseRequest (req : String) : Option Request := (getAny req.toList).map (·.1)

example : parseRequest "WAGO INT 99 1" = some (.wagoInt ⟨99, 1⟩) := by decide

/-! ## The grammar -/

/-- One or more ASCII digits that denote `n`. -/
def Denotes (d : String) (n : UInt32) : Prop :=
  d ≠ "" ∧ (∀ c ∈ d.toList, c.isDigit = true) ∧ Nat.ofDigitChars 10 d.toList 0 = n.toNat

/-- A text that begins with a request to set a variable. -/
def WagoIntText (s : String) (data : WagoData) : Prop :=
  ∃ d₁ d₂ rest : String, s = "WAGO INT " ++ d₁ ++ " " ++ d₂ ++ rest ∧ Denotes d₁ data.var ∧
    Denotes d₂ data.value ∧ ¬ StartsWithDigit rest.toList

/-- A text that begins with a discovery. -/
def DiscoverText (s : String) : Prop := ∃ rest : String, s = "CALAOS_DISCOVER" ++ rest

/-- The printed request. -/
def wagoIntStr (data : WagoData) : String := s!"WAGO INT {data.var} {data.value}"

/-- Digits, which have no sign before them, are read as the number they denote if it fits. -/
theorem parseU32_eq_some {ds : List Char} {n : UInt32} (hne : ds ≠ []) (hds : ∀ c ∈ ds, c.isDigit = true) :
    parseU32 ds = some n ↔ Nat.ofDigitChars 10 ds 0 = n.toNat := by
  have hun : Decimal.parseUnsigned 32 (String.ofList ds) =
      (some (Nat.ofDigitChars 10 ds 0)).filter (· < 2 ^ 32) := by
    have hd : Decimal.digits ds = some (Nat.ofDigitChars 10 ds 0) :=
      if_pos ⟨hne, List.all_eq_true.2 hds⟩
    unfold Decimal.parseUnsigned
    rw [String.toList_ofList]
    split
    · exact absurd (hds '+' List.mem_cons_self) (by decide)
    · exact congrArg (Option.filter _) hd
  rw [parseU32, hun]
  constructor
  · intro h
    obtain ⟨m, hm, rfl⟩ := Option.map_eq_some_iff.1 h
    obtain ⟨hm, hlt⟩ := Option.filter_eq_some_iff.1 hm
    rw [Option.some.inj hm, UInt32.toNat_ofNat_of_lt' (by simpa using hlt)]
  · intro h
    rw [h, Option.filter_some, if_pos (by simpa using n.toNat_lt)]
    simp

theorem mapRes_digit1 {input rest : List Char} {n : UInt32} :
    mapRes digit1 parseU32 input = some (n, rest) ↔
      ∃ d : String, input = d.toList ++ rest ∧ Denotes d n ∧ ¬ StartsWithDigit rest := by
  rw [mapRes_eq_some]
  constructor
  · rintro ⟨ds, hd, hn⟩
    obtain ⟨hin, hne, hds, hrest⟩ := digit1_eq_some.1 hd
    refine ⟨String.ofList ds, by simpa using hin, ⟨by simpa using hne, by simpa using hds, ?_⟩, hrest⟩
    rw [String.toList_ofList]
    exact (parseU32_eq_some hne hds).1 hn
  · rintro ⟨d, hin, ⟨hne, hds, hn⟩, hrest⟩
    have hne' : d.toList ≠ [] := by simpa using hne
    exact ⟨d.toList, digit1_eq_some.2 ⟨hin, hne', hds, hrest⟩, (parseU32_eq_some hne' hds).2 hn⟩

theorem getWagoInt_eq_some {s : String} {data : WagoData} :
    (∃ rest, getWagoInt s.toList = some (data, rest)) ↔ WagoIntText s data := by
  simp only [getWagoInt, bind_eq_some, pure_eq_some, tag_eq_some, mapRes_digit1]
  constructor
  · rintro ⟨rest, _, m₁, h₁, var, m₂, ⟨d₁, rfl, hd₁, _⟩, _, m₃, rfl, value, m₄, ⟨d₂, rfl, hd₂, hr⟩, he⟩
    obtain ⟨rfl, rfl⟩ := Prod.mk.inj he
    refine ⟨d₁, d₂, String.ofList rest, ?_, hd₁, hd₂, by simpa using hr⟩
    apply String.toList_inj.1
    simpa using h₁
  · rintro ⟨d₁, d₂, rest, rfl, hd₁, hd₂, hr⟩
    -- The blank after the first number ends it.
    have hblank : ¬ StartsWithDigit (" ".toList ++ (d₂.toList ++ rest.toList)) := by
      rintro ⟨c, hc, hd⟩
      obtain rfl : ' ' = c := by simpa using hc
      exact absurd hd (by decide)
    exact ⟨rest.toList, (), _, by simp only [String.toList_append, List.append_assoc], data.var, _,
      ⟨d₁, rfl, hd₁, hblank⟩, (), _, rfl, data.value, _, ⟨d₂, rfl, hd₂, hr⟩, rfl⟩

theorem getDiscover_eq_some {s : String} :
    (∃ rest, getDiscover s.toList = some ((), rest)) ↔ DiscoverText s := by
  simp only [getDiscover, tag_eq_some]
  constructor
  · rintro ⟨rest, h⟩
    exact ⟨String.ofList rest, String.toList_inj.1 (by simpa using h)⟩
  · rintro ⟨rest, rfl⟩
    exact ⟨rest.toList, String.toList_append⟩

theorem parseRequest_eq_some {s : String} {req : Request} :
    parseRequest s = some req ↔
      (∃ data, req = .wagoInt data ∧ WagoIntText s data) ∨
      (∀ data, ¬ WagoIntText s data) ∧ req = .discover ∧ DiscoverText s := by
  have hwago : ∀ {r}, (Request.wagoInt <$> getWagoInt) s.toList = some r →
      ∃ data, r.1 = .wagoInt data ∧ WagoIntText s data := by
    intro r hr
    obtain ⟨data, hd, he⟩ := map_eq_some.1 hr
    exact ⟨data, he.symm, getWagoInt_eq_some.1 ⟨r.2, hd⟩⟩
  simp only [parseRequest, getAny, Option.map_eq_some_iff, alt_eq_some]
  constructor
  · rintro ⟨r, hr | ⟨hn, hr⟩, rfl⟩
    · exact .inl (hwago hr)
    · obtain ⟨_, hd, he⟩ := map_eq_some.1 hr
      refine .inr ⟨?_, he.symm, getDiscover_eq_some.1 ⟨r.2, hd⟩⟩
      intro data hdata
      obtain ⟨rest, hw⟩ := getWagoInt_eq_some.2 hdata
      have hsome : (Request.wagoInt <$> getWagoInt) s.toList = some (.wagoInt data, rest) :=
        map_eq_some.2 ⟨data, hw, rfl⟩
      rw [hn] at hsome
      cases hsome
  · rintro (⟨data, rfl, hdata⟩ | ⟨hno, rfl, hd⟩)
    · obtain ⟨rest, hw⟩ := getWagoInt_eq_some.2 hdata
      exact ⟨(.wagoInt data, rest), .inl (map_eq_some.2 ⟨data, hw, rfl⟩), rfl⟩
    · obtain ⟨rest, hr⟩ := getDiscover_eq_some.2 hd
      refine ⟨(.discover, rest), .inr ⟨?_, map_eq_some.2 ⟨(), hr, rfl⟩⟩, rfl⟩
      cases hw : (Request.wagoInt <$> getWagoInt) s.toList with
      | none => rfl
      | some r =>
        obtain ⟨data, _, hdata⟩ := hwago hw
        exact absurd hdata (hno data)

/-- No text is both requests: one begins with a `W`, the other with a `C`. -/
theorem WagoIntText.not_discover {s : String} {data : WagoData} (h : WagoIntText s data) :
    ¬ DiscoverText s := by
  obtain ⟨d₁, d₂, rest, rfl, _, _, _⟩ := h
  rintro ⟨rest', he⟩
  have hl := congrArg (fun t : String => t.toList.head?) he
  simp at hl

theorem denotes_toString (n : UInt32) : Denotes (toString n) n := by
  have hl : (toString n).toList = Nat.toDigits 10 n.toNat := Nat.toList_repr
  refine ⟨?_, ?_, ?_⟩
  · intro h
    rw [h] at hl
    exact Nat.toDigits_ne_nil hl.symm
  · intro c hc
    rw [hl] at hc
    exact Nat.isDigit_of_mem_toDigits (by decide) (by decide) hc
  · have hd := Decimal.digits_toDigits n.toNat
    rw [Decimal.digits] at hd
    split at hd
    · rw [hl]
      exact Option.some.inj hd
    · cases hd

theorem wagoIntText_str (data : WagoData) : WagoIntText (wagoIntStr data) data := by
  refine ⟨toString data.var, toString data.value, "", String.append_empty.symm, denotes_toString _,
    denotes_toString _, ?_⟩
  rintro ⟨c, hc, _⟩
  cases hc

/-- **`parse_request` accepts its grammar and nothing else**, and what is printed is read back. -/
theorem parseRequest_grammar :
    (∀ s data, parseRequest s = some (.wagoInt data) ↔ WagoIntText s data) ∧
    (∀ s, parseRequest s = some .discover ↔ DiscoverText s) ∧
    (∀ s, parseRequest s = none ↔ (∀ data, ¬ WagoIntText s data) ∧ ¬ DiscoverText s) ∧
    ∀ data, parseRequest (wagoIntStr data) = some (.wagoInt data) := by
  have hwago : ∀ s data, parseRequest s = some (.wagoInt data) ↔ WagoIntText s data := by
    intro s data
    rw [parseRequest_eq_some]
    constructor
    · rintro (⟨data', he, h⟩ | ⟨_, he, _⟩)
      · rwa [Request.wagoInt.inj he]
      · cases he
    · intro h
      exact .inl ⟨data, rfl, h⟩
  have hdisc : ∀ s, parseRequest s = some .discover ↔ DiscoverText s := by
    intro s
    rw [parseRequest_eq_some]
    constructor
    · rintro (⟨_, he, _⟩ | ⟨_, _, h⟩)
      · cases he
      · exact h
    · intro h
      exact .inr ⟨fun data hw => hw.not_discover h, rfl, h⟩
  refine ⟨hwago, hdisc, ?_, fun data => (hwago _ data).2 (wagoIntText_str data)⟩
  intro s
  constructor
  · intro hn
    refine ⟨fun data h => ?_, fun h => ?_⟩
    · rw [(hwago s data).2 h] at hn
      cases hn
    · rw [(hdisc s).2 h] at hn
      cases hn
  · rintro ⟨hw, hd⟩
    cases hp : parseRequest s with
    | none => rfl
    | some req =>
      cases req with
      | wagoInt data => exact absurd ((hwago s data).1 hp) (hw data)
      | discover => exact absurd ((hdisc s).1 hp) hd

example : parseRequest "WAGO INT 007 4294967296" = none ∧
    parseRequest "WAGO INT 007 12x" = some (.wagoInt ⟨7, 12⟩) := by decide

end Calaos.Protocol
