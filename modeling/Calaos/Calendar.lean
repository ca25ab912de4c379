import Mathlib.Data.Nat.Find
/-!
# The calendar and local time

The proleptic Gregorian calendar, in which the year 0 is a leap year. A `NaiveDate` is a date of it, so that an
impossible date cannot be built, and dates are counted in days from the first of the year 0 (`days`, `ofDays`).

An instant is a count of nanoseconds, from the start of 1970 at the offset 0. What local time is depends on the
zone: `Zone` says which date it is at an instant, and which instants a local time stands for. There may be none
(clocks are put forward, or the year is out of reach) and there may be two (clocks are put back).
-/
namespace Calendar

/-! ## Dates -/

def isLeap (year : Int) : Bool := decide (year % 4 = 0 ∧ (year % 100 ≠ 0 ∨ year % 400 = 0))

def daysInMonth (year : Int) (month : Nat) : Nat :=
  if month = 2 then if isLeap year then 29 else 28
  else if month = 4 ∨ month = 6 ∨ month = 9 ∨ month = 11 then 30
  else 31

/-- A date of the calendar. -/
structure NaiveDate where
  year : Int
  month : Nat
  day : Nat
  month_mem : 1 ≤ month ∧ month ≤ 12
  day_mem : 1 ≤ day ∧ day ≤ daysInMonth year month
deriving DecidableEq

def NaiveDate.fromYmdOpt (year : Int) (month day : Nat) : Option NaiveDate :=
  if h : (1 ≤ month ∧ month ≤ 12) ∧ 1 ≤ day ∧ day ≤ daysInMonth year month then some ⟨year, month, day, h.1, h.2⟩
  else none

/-- A date with a time of day. -/
structure NaiveDateTime where
  date : NaiveDate
  hour : Nat
  min : Nat
  sec : Nat
  hour_lt : hour < 24
  min_lt : min < 60
  sec_lt : sec < 60
deriving DecidableEq

def NaiveDate.andHmsOpt (date : NaiveDate) (hour min sec : Nat) : Option NaiveDateTime :=
  if h : hour < 24 ∧ min < 60 ∧ sec < 60 then some ⟨date, hour, min, sec, h.1, h.2.1, h.2.2⟩ else none

/-! ## Counting days -/

/-- The days of the years from 0 to the one before `year`, and of the years from it to -1 with a minus. -/
def daysBeforeYear (year : Int) : Int := 365 * year + (year + 3) / 4 - (year + 99) / 100 + (year + 399) / 400

/-- The days of the first `n` months. -/
def daysOfMonths (year : Int) : Nat → Nat
  | 0 => 0
  | n + 1 => daysOfMonths year n + daysInMonth year (n + 1)

def daysInYear (year : Int) : Nat := if isLeap year then 366 else 365

theorem daysOfMonths_twelve (year : Int) : daysOfMonths year 12 = daysInYear year := by
  unfold daysInYear
  by_cases h : isLeap year = true <;> simp [daysOfMonths, daysInMonth, h]

theorem daysBeforeYear_succ (year : Int) : daysBeforeYear (year + 1) = daysBeforeYear year + daysInYear year := by
  simp only [daysBeforeYear, daysInYear, isLeap, decide_eq_true_eq]
  split_ifs with h <;> omega

/-- The calendar repeats itself after 400 years. -/
theorem isLeap_add (era year : Int) : isLeap (400 * era + year) = isLeap year := by
  unfold isLeap
  congr 1
  rw [eq_iff_iff]
  omega

theorem daysBeforeYear_add (era year : Int) :
    daysBeforeYear (400 * era + year) = 146097 * era + daysBeforeYear year := by
  unfold daysBeforeYear
  omega

/-- The days from the first of the year 0 to the date. -/
def NaiveDate.days (date : NaiveDate) : Int :=
  daysBeforeYear date.year + daysOfMonths date.year (date.month - 1) + (date.day - 1 : Nat)

/-- The year of its 400 years to which a day belongs. -/
def yearOfEra (dayOfEra : Nat) : Nat := Nat.findGreatest (fun year => daysBeforeYear year ≤ dayOfEra) 399

/-- The month of the year, counted from 0, to which a day belongs. -/
def monthOfYear (year : Int) (dayOfYear : Nat) : Nat :=
  Nat.findGreatest (fun month => daysOfMonths year month ≤ dayOfYear) 11

/-- A day lies in the year that is found for it. -/
theorem yearOfEra_spec {dayOfEra : Nat} (h : dayOfEra < 146097) :
    daysBeforeYear (yearOfEra dayOfEra) ≤ dayOfEra ∧ dayOfEra < daysBeforeYear (yearOfEra dayOfEra + 1) := by
  have hle : daysBeforeYear (yearOfEra dayOfEra) ≤ dayOfEra :=
    Nat.findGreatest_spec (P := fun year : Nat => daysBeforeYear year ≤ dayOfEra) (Nat.zero_le 399)
      (by simp [daysBeforeYear])
  refine ⟨hle, ?_⟩
  have hmax : yearOfEra dayOfEra ≤ 399 := Nat.findGreatest_le 399
  by_cases hlast : yearOfEra dayOfEra = 399
  · rw [hlast]
    simp [daysBeforeYear]
    omega
  · by_contra hnot
    have hsucc : daysBeforeYear ((yearOfEra dayOfEra + 1 : Nat) : Int) ≤ dayOfEra := by
      push_cast
      omega
    have hgreater := Nat.le_findGreatest (P := fun year : Nat => daysBeforeYear year ≤ dayOfEra)
      (show yearOfEra dayOfEra + 1 ≤ 399 by omega) hsucc
    have : yearOfEra dayOfEra + 1 ≤ yearOfEra dayOfEra := hgreater
    omega

/-- A day lies in the month that is found for it. -/
theorem monthOfYear_spec {year : Int} {dayOfYear : Nat} (h : dayOfYear < daysInYear year) :
    daysOfMonths year (monthOfYear year dayOfYear) ≤ dayOfYear ∧
    dayOfYear < daysOfMonths year (monthOfYear year dayOfYear + 1) := by
  have hle : daysOfMonths year (monthOfYear year dayOfYear) ≤ dayOfYear :=
    Nat.findGreatest_spec (P := fun month => daysOfMonths year month ≤ dayOfYear) (Nat.zero_le 11)
      (Nat.zero_le _)
  refine ⟨hle, ?_⟩
  have hmax : monthOfYear year dayOfYear ≤ 11 := Nat.findGreatest_le 11
  by_cases hlast : monthOfYear year dayOfYear = 11
  · rw [hlast, daysOfMonths_twelve]
    exact h
  · by_contra hnot
    have hgreater := Nat.le_findGreatest (P := fun month => daysOfMonths year month ≤ dayOfYear)
      (show monthOfYear year dayOfYear + 1 ≤ 11 by omega) (Nat.le_of_not_lt hnot)
    have : monthOfYear year dayOfYear + 1 ≤ monthOfYear year dayOfYear := hgreater
    omega

/-- The 400 years to which a day belongs, the year and the day of the year counted from 0. -/
def yearAndDay (n : Int) : Int × Nat :=
  let year := yearOfEra (n % 146097).toNat
  (400 * (n / 146097) + year, (n % 146097 - daysBeforeYear year).toNat)

theorem yearAndDay_spec (n : Int) :
    (yearAndDay n).2 < daysInYear (yearAndDay n).1 ∧ daysBeforeYear (yearAndDay n).1 + (yearAndDay n).2 = n := by
  have hlo : 0 ≤ n % 146097 := Int.emod_nonneg n (by decide)
  have hhi : n % 146097 < 146097 := Int.emod_lt_of_pos n (by decide)
  have hera : (n % 146097).toNat < 146097 := by omega
  obtain ⟨hle, hlt⟩ := yearOfEra_spec hera
  rw [daysBeforeYear_succ] at hlt
  have hyear : daysInYear (yearAndDay n).1 = daysInYear (yearOfEra (n % 146097).toNat) := by
    unfold daysInYear yearAndDay
    rw [isLeap_add]
  rw [hyear]
  simp only [yearAndDay, daysBeforeYear_add]
  omega

/-- The month of a day, counted from 0. -/
def monthOf (n : Int) : Nat := monthOfYear (yearAndDay n).1 (yearAndDay n).2

theorem monthOf_le (n : Int) : monthOf n ≤ 11 := by
  unfold monthOf monthOfYear
  exact Nat.findGreatest_le 11

/-- The day of its month, counted from 0. -/
def dayOf (n : Int) : Nat := (yearAndDay n).2 - daysOfMonths (yearAndDay n).1 (monthOf n)

theorem dayOf_spec (n : Int) : dayOf n < daysInMonth (yearAndDay n).1 (monthOf n + 1) ∧
    daysBeforeYear (yearAndDay n).1 + daysOfMonths (yearAndDay n).1 (monthOf n) + dayOf n = n := by
  obtain ⟨hlt, hdays⟩ := yearAndDay_spec n
  obtain ⟨hle, hlt'⟩ := monthOfYear_spec hlt
  rw [daysOfMonths] at hlt'
  unfold dayOf monthOf
  omega

/-- The date of a day. -/
def NaiveDate.ofDays (n : Int) : NaiveDate where
  year := (yearAndDay n).1
  month := monthOf n + 1
  day := dayOf n + 1
  month_mem := ⟨Nat.le_add_left 1 _, Nat.succ_le_succ (monthOf_le n)⟩
  day_mem := ⟨Nat.le_add_left 1 _, (dayOf_spec n).1⟩

theorem NaiveDate.days_ofDays (n : Int) : (NaiveDate.ofDays n).days = n := (dayOf_spec n).2

theorem daysBeforeYear_mono {year year' : Int} (h : year ≤ year') : daysBeforeYear year ≤ daysBeforeYear year' := by
  unfold daysBeforeYear
  omega

theorem daysOfMonths_mono (year : Int) {month month' : Nat} (h : month ≤ month') :
    daysOfMonths year month ≤ daysOfMonths year month' := by
  induction h with
  | refl => exact Nat.le_refl _
  | step _ ih => exact Nat.le_trans ih (Nat.le_add_right _ _)

namespace NaiveDate
variable (date : NaiveDate)

/-- A date lies in its month. -/
theorem day_lt : daysOfMonths date.year (date.month - 1) + (date.day - 1) < daysOfMonths date.year date.month := by
  have hmonth : date.month = date.month - 1 + 1 := by have := date.month_mem; omega
  have hday := date.day_mem
  rw [hmonth] at hday
  conv_rhs => rw [hmonth, daysOfMonths]
  omega

/-- A date lies in its year. -/
theorem days_mem : daysBeforeYear date.year ≤ date.days ∧ date.days < daysBeforeYear (date.year + 1) := by
  have hmonth := daysOfMonths_mono date.year date.month_mem.2
  have hday := date.day_lt
  rw [daysOfMonths_twelve] at hmonth
  rw [daysBeforeYear_succ]
  unfold days
  omega

/-- No two dates are on one day. -/
theorem days_injective : Function.Injective days := by
  intro date date' h
  have hyear : date.year = date'.year := by
    have hmem := date.days_mem
    have hmem' := date'.days_mem
    rcases Int.lt_trichotomy date.year date'.year with hlt | heq | hgt
    · have := daysBeforeYear_mono (show date.year + 1 ≤ date'.year by omega)
      omega
    · exact heq
    · have := daysBeforeYear_mono (show date'.year + 1 ≤ date.year by omega)
      omega
  have hsum : daysOfMonths date.year (date.month - 1) + (date.day - 1) =
      daysOfMonths date.year (date'.month - 1) + (date'.day - 1) := by
    unfold days at h
    rw [← hyear] at h
    omega
  have hday := date.day_lt
  have hday' := date'.day_lt
  rw [← hyear] at hday'
  have hmonth : date.month = date'.month := by
    have hmem := date.month_mem
    have hmem' := date'.month_mem
    rcases Nat.lt_trichotomy date.month date'.month with hlt | heq | hgt
    · have := daysOfMonths_mono date.year (show date.month ≤ date'.month - 1 by omega)
      omega
    · exact heq
    · have := daysOfMonths_mono date.year (show date'.month ≤ date.month - 1 by omega)
      omega
  have hdays : date.day = date'.day := by
    have hmem := date.day_mem
    have hmem' := date'.day_mem
    rw [hmonth] at hsum
    omega
  cases date
  cases date'
  subst hyear hmonth hdays
  rfl

end NaiveDate

/-! ## Local time -/

/-- The instants that a local time stands for. -/
inductive LocalResult where
  | none
  | single (t : Int)
  | ambiguous (earliest latest : Int)
deriving DecidableEq

/-- A time zone: the date at an instant, and what a local time stands for. -/
structure Zone where
  date : Int → NaiveDate
  fromLocalDatetime : NaiveDateTime → LocalResult

/-- The local time of these fields, which need not be a date or a time of day. -/
def Zone.withYmdAndHms (zone : Zone) (year : Int) (month day hour min sec : Nat) : LocalResult :=
  match NaiveDate.fromYmdOpt year month day with
  | some date =>
    match date.andHmsOpt hour min sec with
    | some datetime => zone.fromLocalDatetime datetime
    | none => .none
  | none => .none

/-- Only the fields of a date with a time of day stand for an instant. -/
theorem Zone.withYmdAndHms_eq_single {zone : Zone} {year : Int} {month day hour min sec : Nat} {t : Int} :
    zone.withYmdAndHms year month day hour min sec = .single t ↔
      ∃ datetime : NaiveDateTime, datetime.date.year = year ∧ datetime.date.month = month ∧ datetime.date.day = day ∧
        datetime.hour = hour ∧ datetime.min = min ∧ datetime.sec = sec ∧
        zone.fromLocalDatetime datetime = .single t := by
  unfold withYmdAndHms NaiveDate.fromYmdOpt
  constructor
  · intro h
    split_ifs at h with hdate
    · simp only [NaiveDate.andHmsOpt] at h
      split_ifs at h with htime
      exact ⟨_, rfl, rfl, rfl, rfl, rfl, rfl, h⟩
  · rintro ⟨⟨⟨year, month, day, hm, hd⟩, hour, min, sec, hh, hmin, hs⟩, rfl, rfl, rfl, rfl, rfl, rfl, h⟩
    rw [dif_pos ⟨hm, hd⟩]
    simp only [NaiveDate.andHmsOpt]
    rw [dif_pos ⟨hh, hmin, hs⟩]
    exact h

/-- A second, in the unit of instants. -/
def second : Int := 1000000000

/-- The day on which instants start. -/
def epoch : Int := 719528

/-- The seconds from the start of `epoch` to the local time. -/
def NaiveDateTime.seconds (datetime : NaiveDateTime) : Int :=
  (datetime.date.days - epoch) * 86400 + (datetime.hour * 3600 + datetime.min * 60 + datetime.sec : Nat)

/-- The zone that is `offset` seconds ahead, for dates of the years from `minYear` to `maxYear`. -/
def Zone.fixed (offset minYear maxYear : Int) : Zone where
  date t := .ofDays ((t + offset * second) / (86400 * second) + epoch)
  fromLocalDatetime datetime :=
    if minYear ≤ datetime.date.year ∧ datetime.date.year ≤ maxYear then .single ((datetime.seconds - offset) * second)
    else .none

section
variable {offset minYear maxYear t : Int} {datetime : NaiveDateTime}

/-- A local time lies on its day. -/
theorem NaiveDateTime.seconds_mem : (datetime.date.days - epoch) * 86400 ≤ datetime.seconds ∧
    datetime.seconds < (datetime.date.days - epoch) * 86400 + 86400 := by
  have hhour := datetime.hour_lt
  have hmin := datetime.min_lt
  have hsec := datetime.sec_lt
  unfold seconds
  omega

theorem Zone.days_date_fixed :
    ((Zone.fixed offset minYear maxYear).date t).days = (t + offset * second) / (86400 * second) + epoch :=
  NaiveDate.days_ofDays _

theorem Zone.days_date_mono {now : Int} (h : now ≤ t) :
    ((Zone.fixed offset minYear maxYear).date now).days ≤ ((Zone.fixed offset minYear maxYear).date t).days := by
  rw [days_date_fixed, days_date_fixed]
  unfold second
  omega

theorem Zone.fixed_eq_single (h : (Zone.fixed offset minYear maxYear).fromLocalDatetime datetime = .single t) :
    t = (datetime.seconds - offset) * second := by
  simp only [Zone.fixed] at h
  split_ifs at h
  cases h
  rfl

/-- At the instant that a local time stands for, its date is the date. -/
theorem Zone.date_fixed (h : (Zone.fixed offset minYear maxYear).fromLocalDatetime datetime = .single t) :
    (Zone.fixed offset minYear maxYear).date t = datetime.date := by
  have ht := fixed_eq_single h
  have hmem := datetime.seconds_mem
  apply NaiveDate.days_injective
  rw [days_date_fixed, ht]
  unfold second
  omega

/-- An instant is before the local times of the days after its own. -/
theorem Zone.lt_of_days_lt {now : Int}
    (h : (Zone.fixed offset minYear maxYear).fromLocalDatetime datetime = .single t)
    (hdays : ((Zone.fixed offset minYear maxYear).date now).days < datetime.date.days) : now < t := by
  have ht := fixed_eq_single h
  have hmem := datetime.seconds_mem
  rw [days_date_fixed] at hdays
  unfold second at *
  omega

/-- After less than a second the date is the same, unless a day has just begun. -/
theorem Zone.date_fixed_or {now : Int}
    (h : (Zone.fixed offset minYear maxYear).fromLocalDatetime datetime = .single t) (hlt : now < t)
    (hsecond : t < now + second) : (Zone.fixed offset minYear maxYear).date now = datetime.date ∨
      datetime.date.days = ((Zone.fixed offset minYear maxYear).date now).days + 1 ∧
      datetime.hour = 0 ∧ datetime.min = 0 ∧ datetime.sec = 0 := by
  have ht := fixed_eq_single h
  have hmem := datetime.seconds_mem
  by_cases hdays : ((Zone.fixed offset minYear maxYear).date now).days = datetime.date.days
  · exact .inl (NaiveDate.days_injective hdays)
  · right
    rw [days_date_fixed] at hdays ⊢
    unfold second at *
    have hnext : datetime.date.days = (now + offset * 1000000000) / (86400 * 1000000000) + epoch + 1 := by omega
    have hmidnight : datetime.seconds = (datetime.date.days - epoch) * 86400 := by omega
    unfold NaiveDateTime.seconds at hmidnight
    exact ⟨hnext, by omega, by omega, by omega⟩

end

end Calendar
