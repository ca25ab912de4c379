import Calaos.Calendar
import Calaos.IoContext
/-!
# The time controller (core/src/io/time_controller.rs)

| here | there |
| --- | --- |
| `Panic`              | the panics of the input side, by the call that panics |
| `unwrapDate`         | `unwrap_date` |
| `localTime`          | `Local.with_ymd_and_hms(..)`, the fields that are left out being those of `now` |
| `toStd`              | `to_std` |
| `toDuration`, `toOrderedDurations` | `to_duration`, `to_ordered_durations` |
| `iteration`          | one turn of the loop of `run`; its value is the time it sleeps |

`Local` is a zone, an argument of all functions. A duration is a count of nanoseconds, as an instant is.
`partial_cmp` of two durations always has an answer, so that its `unwrap` is not one of the panics.
-/
namespace Calaos

open Calendar

/-- The calls of the input side that may panic. -/
inductive Panic where
  | selectAll
  | unwrapDate
  | localUnwrap
  | toStdUnwrap
  | lenSlice
deriving DecidableEq

namespace TimeController

def unwrapDate : InputKind → Except Panic Date
  | .inputTime date => .ok date
  | _ => .error .unwrapDate

def localTime (zone : Zone) (now : Int) (date : Date) : LocalResult :=
  zone.withYmdAndHms (date.year.elim (zone.date now).year (·.toInt)) (date.month.elim (zone.date now).month (·.toNat))
    (date.day.elim (zone.date now).day (·.toNat)) date.hour.toNat date.min.toNat date.sec.toNat

/-- There is no `std::time::Duration` of a negative duration. -/
def toStd (duration : Int) : Option Nat := if 0 ≤ duration then some duration.toNat else none

def toDuration (zone : Zone) (now : Int) (date : Date) : Except Panic (Option Nat) :=
  match localTime zone now date with
  | .single datetime =>
    if now > datetime then .ok none
    else
      match toStd (datetime - now) with
      | some duration => .ok (some duration)
      | none => .error .toStdUnwrap
  | _ => .error .localUnwrap

def toOrderedDurations (zone : Zone) (now : Int) (dates : List (String × Date)) :
    Except Panic (List (String × Nat)) := do
  let durations ← dates.mapM fun (k, d) => do return (k, ← toDuration zone now d)
  let res := durations.filterMap fun (k, d) => d.map fun d => (k, d)
  return res.mergeSort fun a b => decide (a.2 ≤ b.2)

/-- `Duration::from_secs(1)`. -/
def poll : Nat := 1000000000

def iteration (zone : Zone) (inputMap : InputContextMap) (order : List String) (now : Int) : Except Panic Nat := do
  let entries := order.filterMap fun k => (inputMap.lookup k).map fun v => (k, v)
  let allDurations ← entries.mapM fun (k, v) => do return (k, ← unwrapDate v.input.kind)
  let orderedDurations ← toOrderedDurations zone now allDurations
  match orderedDurations with
  | [] => return poll
  | next :: _ => return next.2

/-! ## What a date stands for -/

/-- The local time has the fields of the date, and those of `now` where the date leaves one out. -/
structure FilledIn (zone : Zone) (now : Int) (date : Date) (datetime : NaiveDateTime) : Prop where
  year : datetime.date.year = date.year.elim (zone.date now).year (·.toInt)
  month : datetime.date.month = date.month.elim (zone.date now).month (·.toNat)
  day : datetime.date.day = date.day.elim (zone.date now).day (·.toNat)
  hour : datetime.hour = date.hour.toNat
  min : datetime.min = date.min.toNat
  sec : datetime.sec = date.sec.toNat

/-- It stands for the instant `t` alone. -/
def StandsFor (zone : Zone) (now : Int) (date : Date) (t : Int) : Prop :=
  ∃ datetime, FilledIn zone now date datetime ∧ zone.fromLocalDatetime datetime = .single t

theorem localTime_eq_single {zone : Zone} {now : Int} {date : Date} {t : Int} :
    localTime zone now date = .single t ↔ StandsFor zone now date t := by
  unfold localTime StandsFor
  rw [Zone.withYmdAndHms_eq_single]
  constructor
  · rintro ⟨datetime, hy, hmo, hd, hh, hmi, hs, h⟩
    exact ⟨datetime, ⟨hy, hmo, hd, hh, hmi, hs⟩, h⟩
  · rintro ⟨datetime, hf, h⟩
    exact ⟨datetime, hf.year, hf.month, hf.day, hf.hour, hf.min, hf.sec, h⟩

/-! ## When there is no panic -/

/-- A computation that does not panic. -/
def Succeeds {α : Type} (x : Except Panic α) : Prop := ∃ a, x = .ok a

section
variable {α β : Type}

theorem succeeds_pure (a : α) : Succeeds (pure a) := ⟨a, rfl⟩

theorem succeeds_bind {x : Except Panic α} {f : α → Except Panic β} :
    Succeeds (x >>= f) ↔ ∃ a, x = .ok a ∧ Succeeds (f a) := by
  cases x with
  | ok a => simp [Succeeds, bind, Except.bind]
  | error e => simp [Succeeds, bind, Except.bind]

/-- What comes after cannot panic. -/
theorem succeeds_bind_of {x : Except Panic α} {f : α → Except Panic β} (hf : ∀ a, Succeeds (f a)) :
    Succeeds (x >>= f) ↔ Succeeds x := by
  rw [succeeds_bind]
  constructor
  · rintro ⟨a, ha, _⟩
    exact ⟨a, ha⟩
  · rintro ⟨a, ha⟩
    exact ⟨a, ha, hf a⟩

theorem bind_eq_ok {x : Except Panic α} {f : α → Except Panic β} {b : β} :
    x >>= f = .ok b ↔ ∃ a, x = .ok a ∧ f a = .ok b := by
  cases x with
  | ok a => simp [bind, Except.bind]
  | error e => simp [bind, Except.bind]

theorem succeeds_mapM {f : α → Except Panic β} {as : List α} :
    Succeeds (as.mapM f) ↔ ∀ a ∈ as, Succeeds (f a) := by
  induction as with
  | nil => simp [succeeds_pure]
  | cons a as ih =>
    rw [List.mapM_cons, succeeds_bind, List.forall_mem_cons, ← ih]
    constructor
    · rintro ⟨b, hb, hrest⟩
      obtain ⟨bs, hbs, _⟩ := succeeds_bind.1 hrest
      exact ⟨⟨b, hb⟩, bs, hbs⟩
    · rintro ⟨⟨b, hb⟩, bs, hbs⟩
      exact ⟨b, hb, succeeds_bind.2 ⟨bs, hbs, succeeds_pure _⟩⟩

/-- What is in the list that comes out. -/
theorem mem_mapM {f : α → Except Panic β} {as : List α} {bs : List β} (h : as.mapM f = .ok bs) (b : β) :
    b ∈ bs ↔ ∃ a ∈ as, f a = .ok b := by
  induction as generalizing bs with
  | nil =>
    cases h
    simp
  | cons a as ih =>
    rw [List.mapM_cons] at h
    obtain ⟨b', hb', hrest⟩ := bind_eq_ok.1 h
    obtain ⟨bs', hbs', ⟨⟩⟩ := bind_eq_ok.1 hrest
    simp [ih hbs', hb', eq_comm]

end

section
variable {zone : Zone} {now : Int} {date : Date} {dates : List (String × Date)} {inputMap : InputContextMap}
  {order : List String}

theorem unwrapDate_eq_ok {kind : InputKind} : unwrapDate kind = .ok date ↔ kind = .inputTime date := by
  cases kind <;> simp [unwrapDate]

/-- The date stands for one instant. The comparison made before leaves only durations that are not negative. -/
theorem succeeds_toDuration : Succeeds (toDuration zone now date) ↔ ∃ t, StandsFor zone now date t := by
  simp only [← localTime_eq_single]
  unfold toDuration
  cases localTime zone now date with
  | none => simp [Succeeds]
  | ambiguous t t' => simp [Succeeds]
  | single t =>
    refine ⟨fun _ => ⟨t, rfl⟩, fun _ => ?_⟩
    simp only
    by_cases h : now > t
    · rw [if_pos h]
      exact ⟨none, rfl⟩
    · have hstd : toStd (t - now) = some (t - now).toNat := if_pos (by omega)
      rw [if_neg h, hstd]
      exact ⟨_, rfl⟩

theorem succeeds_toOrderedDurations :
    Succeeds (toOrderedDurations zone now dates) ↔ ∀ p ∈ dates, ∃ t, StandsFor zone now p.2 t := by
  unfold toOrderedDurations
  rw [succeeds_bind]
  constructor
  · rintro ⟨durations, hd, _⟩ p hp
    obtain ⟨d, hd', _⟩ := succeeds_bind.1 (succeeds_mapM.1 ⟨durations, hd⟩ p hp)
    exact succeeds_toDuration.1 ⟨d, hd'⟩
  · intro h
    have hall : Succeeds (dates.mapM fun p : String × Date => do return (p.1, ← toDuration zone now p.2)) :=
      succeeds_mapM.2 fun p hp => (succeeds_bind_of fun _ => succeeds_pure _).2 (succeeds_toDuration.2 (h p hp))
    obtain ⟨durations, hd⟩ := hall
    exact ⟨durations, hd, succeeds_pure _⟩

/-- The entries that a turn visits. -/
theorem mem_entries {id : String} {context : InputContext} :
    (id, context) ∈ (order.filterMap fun k => (inputMap.lookup k).map fun v => (k, v)) ↔
      id ∈ order ∧ inputMap.lookup id = some context := by
  simp only [List.mem_filterMap, Option.map_eq_some_iff, Prod.mk.injEq]
  constructor
  · rintro ⟨k, hk, v, hv, rfl, rfl⟩
    exact ⟨hk, hv⟩
  · rintro ⟨hk, hv⟩
    exact ⟨id, hk, context, hv, rfl, rfl⟩

/-- **A turn does not panic exactly when every input of the controller is a time input whose date stands for one
instant.** -/
theorem succeeds_iteration : Succeeds (iteration zone inputMap order now) ↔
    ∀ id ∈ order, ∀ context, inputMap.lookup id = some context →
      ∃ date, context.input.kind = .inputTime date ∧ ∃ t, StandsFor zone now date t := by
  unfold iteration
  rw [succeeds_bind]
  constructor
  · rintro ⟨dates, hdates, hrest⟩ id hid context hl
    obtain ⟨durations, hd, _⟩ := succeeds_bind.1 hrest
    have hmem := mem_entries.2 ⟨hid, hl⟩
    obtain ⟨date, hdate, _⟩ := succeeds_bind.1 (succeeds_mapM.1 ⟨dates, hdates⟩ _ hmem)
    have hin : (id, date) ∈ dates := (mem_mapM hdates _).2 ⟨_, hmem, bind_eq_ok.2 ⟨date, hdate, rfl⟩⟩
    exact ⟨date, unwrapDate_eq_ok.1 hdate, succeeds_toOrderedDurations.1 ⟨durations, hd⟩ _ hin⟩
  · intro h
    have hall : Succeeds ((order.filterMap fun k => (inputMap.lookup k).map fun v => (k, v)).mapM
        fun p : String × InputContext => do return (p.1, ← unwrapDate p.2.input.kind)) := by
      refine succeeds_mapM.2 fun p hp => (succeeds_bind_of fun _ => succeeds_pure _).2 ?_
      obtain ⟨hid, hl⟩ := mem_entries.1 hp
      obtain ⟨date, hkind, _⟩ := h p.1 hid p.2 hl
      exact ⟨date, unwrapDate_eq_ok.2 hkind⟩
    obtain ⟨dates, hdates⟩ := hall
    refine ⟨dates, hdates, (succeeds_bind_of ?_).2 (succeeds_toOrderedDurations.2 ?_)⟩
    · intro ordered
      cases ordered <;> exact succeeds_pure _
    · intro p hp
      obtain ⟨q, hq, he⟩ := (mem_mapM hdates p).1 hp
      obtain ⟨hid, hl⟩ := mem_entries.1 hq
      obtain ⟨date, hkind, ht⟩ := h q.1 hid q.2 hl
      obtain ⟨date', hdate, ⟨⟩⟩ := bind_eq_ok.1 he
      rw [unwrapDate_eq_ok.2 hkind] at hdate
      cases hdate
      exact ht

end

end TimeController

end Calaos
