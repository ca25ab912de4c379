import Calaos.InputControllers
/-!
# The dates of the time controller (core/src/io/time_controller.rs)

| here | there |
| --- | --- |
| `pending`     | the dates that are not past, each with the time that is left to it |
| `Scheduled`   | the date is that of one of the inputs of the controller |
| `Denotes`     | the local time has the fields that the date has |
| `Occurs`      | the date, filled in from the instant itself, stands for the instant |
| `WakesInTime` | a turn does not sleep through an occurrence |
| `Undisturbed` | when it does not |

A date that leaves fields out comes again and again, but a turn looks only at the one time that it stands for now. It
sleeps until the first of these that is not past, or polls.
-/
namespace Calaos.TimeController

open Calendar
open InputControllers (filterInput utc input alarm house january)

/-! ## A stable sort -/

section
variable {α : Type} (key : α → Nat)

theorem key_trans (a b c : α) (hab : decide (key a ≤ key b) = true) (hbc : decide (key b ≤ key c) = true) :
    decide (key a ≤ key c) = true := by
  simp only [decide_eq_true_eq] at *
  omega

theorem key_total (a b : α) : (decide (key a ≤ key b) || decide (key b ≤ key a)) = true := by
  simp only [Bool.or_eq_true, decide_eq_true_eq]
  omega

theorem pairwise_mergeSort (as : List α) :
    (as.mergeSort fun a b => decide (key a ≤ key b)).Pairwise fun a b => key a ≤ key b := by
  simpa using List.pairwise_mergeSort (key_trans key) (key_total key) as

/-- Elements with the same key stay in their order. -/
theorem filter_mergeSort (as : List α) (n : Nat) :
    (as.mergeSort fun a b => decide (key a ≤ key b)).filter (fun a => decide (key a = n)) =
      as.filter fun a => decide (key a = n) := by
  have hsame : (as.filter fun a => decide (key a = n)).Pairwise fun a b => decide (key a ≤ key b) = true := by
    refine List.pairwise_iff_forall_sublist.2 fun {a b} hab => ?_
    have ha := (List.mem_filter.1 (hab.subset List.mem_cons_self)).2
    have hb := (List.mem_filter.1 (hab.subset (List.mem_cons_of_mem _ List.mem_cons_self))).2
    simp only [decide_eq_true_eq] at ha hb ⊢
    omega
  have hsub := (List.sublist_mergeSort (key_trans key) (key_total key) hsame List.filter_sublist).filter
    fun a => decide (key a = n)
  rw [List.filter_filter] at hsub
  simp only [Bool.and_self] at hsub
  exact (hsub.eq_of_length ((List.mergeSort_perm as _).filter _).length_eq.symm).symm

end

/-! ## What is still to come -/

/-- The instant that the date stands for, if it is one. -/
def instantOf (zone : Zone) (now : Int) (date : Date) : Int :=
  match localTime zone now date with
  | .single t => t
  | _ => 0

theorem StandsFor.instantOf_eq {zone : Zone} {now t : Int} {date : Date} (h : StandsFor zone now date t) :
    instantOf zone now date = t := by
  unfold instantOf
  rw [localTime_eq_single.2 h]

/-- The dates that are not past, each with the time that is left to it. -/
def pending (instant : Date → Int) (now : Int) (dates : List (String × Date)) : List (String × Nat) :=
  dates.filterMap fun p => if now ≤ instant p.2 then some (p.1, (instant p.2 - now).toNat) else none

section
variable {zone : Zone} {now : Int} {dates : List (String × Date)} {instant : Date → Int}

theorem toDuration_eq {date : Date} {t : Int} (h : StandsFor zone now date t) :
    toDuration zone now date = .ok (if now ≤ t then some (t - now).toNat else none) := by
  unfold toDuration
  rw [localTime_eq_single.2 h]
  by_cases hnow : now ≤ t
  · have hstd : toStd (t - now) = some (t - now).toNat := if_pos (by omega)
    simp only [if_pos hnow, if_neg (show ¬ now > t by omega), hstd]
  · simp only [if_neg hnow, if_pos (show now > t by omega)]

theorem toOrderedDurations_eq (h : ∀ p ∈ dates, StandsFor zone now p.2 (instant p.2)) :
    toOrderedDurations zone now dates =
      .ok ((pending instant now dates).mergeSort fun a b => decide (a.2 ≤ b.2)) := by
  have hmap : (dates.mapM fun p : String × Date => do return (p.1, ← toDuration zone now p.2)) =
      .ok (dates.map fun p => (p.1, if now ≤ instant p.2 then some (instant p.2 - now).toNat else none)) := by
    induction dates with
    | nil => rfl
    | cons p dates ih =>
      obtain ⟨hp, hrest⟩ := List.forall_mem_cons.1 h
      rw [List.mapM_cons, ih hrest, toDuration_eq hp]
      rfl
  have hpending : List.filterMap (fun q : String × Option Nat => q.2.map fun d => (q.1, d))
      (dates.map fun p => (p.1, if now ≤ instant p.2 then some (instant p.2 - now).toNat else none)) =
        pending instant now dates := by
    rw [List.filterMap_map]
    refine List.filterMap_congr fun p _ => ?_
    by_cases hnow : now ≤ instant p.2 <;> simp [hnow]
  unfold toOrderedDurations
  rw [hmap, ← hpending]
  rfl

/-- **The dates that are still to come, the next one first.** No date panics, and dates with the same time left to them
stay in their order. -/
theorem toOrderedDurations_spec (instant : Date → Int) (h : ∀ p ∈ dates, StandsFor zone now p.2 (instant p.2)) :
    ∃ durations, toOrderedDurations zone now dates = .ok durations ∧
      durations.Perm (pending instant now dates) ∧
      durations.Pairwise (fun a b => a.2 ≤ b.2) ∧
      ∀ d, durations.filter (fun a => decide (a.2 = d)) =
        (pending instant now dates).filter fun a => decide (a.2 = d) :=
  ⟨_, toOrderedDurations_eq h, List.mergeSort_perm _ _, pairwise_mergeSort Prod.snd _, filter_mergeSort Prod.snd _⟩

end

/-- The start of 2020, in seconds. -/
def newYear : Int := 1577836800 * second

/-- Three times of the first day of 2020, one of them on every day, and one of the year before. -/
def fourDates : List (String × Date) :=
  [("d1", ⟨some 2020, some 1, some 1, 1, 0, 0⟩), ("d2", ⟨some 2020, some 1, some 1, 0, 1, 0⟩),
    ("d3", ⟨some 2019, some 1, some 1, 0, 1, 0⟩), ("d4", ⟨none, none, none, 0, 1, 1⟩)]

theorem toOrderedDurations_fourDates : ∃ durations, toOrderedDurations utc newYear fourDates = .ok durations ∧
    durations.Perm [("d1", 3600000000000), ("d2", 60000000000), ("d4", 61000000000)] ∧
    durations.Pairwise (fun a b => a.2 ≤ b.2) ∧
    ∀ d, durations.filter (fun a => decide (a.2 = d)) =
      [("d1", 3600000000000), ("d2", 60000000000), ("d4", 61000000000)].filter fun a => decide (a.2 = d) := by
  have hpending : pending (instantOf utc newYear) newYear fourDates =
      [("d1", 3600000000000), ("d2", 60000000000), ("d4", 61000000000)] := by decide +kernel
  have hsingle : ∀ p ∈ fourDates, localTime utc newYear p.2 = .single (instantOf utc newYear p.2) := by decide +kernel
  rw [← hpending]
  exact toOrderedDurations_spec (instantOf utc newYear) fun p hp => localTime_eq_single.1 (hsingle p hp)

/-! ## How long a turn sleeps -/

/-- The date is that of one of the inputs of the controller. -/
def Scheduled (inputMap : InputContextMap) (order : List String) (date : Date) : Prop :=
  ∃ id ∈ order, ∃ context, inputMap.lookup id = some context ∧ context.input.kind = .inputTime date

section
variable {zone : Zone} {now : Int} {inputMap : InputContextMap} {order : List String} {sleep : Nat}

/-- A turn orders the dates of the inputs. -/
theorem iteration_eq_ok (h : iteration zone inputMap order now = .ok sleep) :
    ∃ dates : List (String × Date), (∀ date, Scheduled inputMap order date ↔ ∃ id, (id, date) ∈ dates) ∧
      ∃ durations, toOrderedDurations zone now dates = .ok durations ∧ sleep = durations.head?.elim poll Prod.snd := by
  unfold iteration at h
  obtain ⟨dates, hdates, hrest⟩ := bind_eq_ok.1 h
  obtain ⟨durations, hdurations, hsleep⟩ := bind_eq_ok.1 hrest
  refine ⟨dates, fun date => ?_, durations, hdurations, ?_⟩
  · constructor
    · rintro ⟨id, hid, context, hl, hkind⟩
      exact ⟨id, (mem_mapM hdates _).2 ⟨(id, context), mem_entries.2 ⟨hid, hl⟩,
        bind_eq_ok.2 ⟨date, unwrapDate_eq_ok.2 hkind, rfl⟩⟩⟩
    · rintro ⟨id, hmem⟩
      obtain ⟨p, hp, he⟩ := (mem_mapM hdates _).1 hmem
      obtain ⟨date', hdate, ⟨⟩⟩ := bind_eq_ok.1 he
      obtain ⟨hid, hl⟩ := mem_entries.1 hp
      exact ⟨p.1, hid, p.2, hl, unwrapDate_eq_ok.1 hdate⟩
  · cases durations with
    | nil =>
      cases hsleep
      rfl
    | cons next durations =>
      cases hsleep
      rfl

theorem mem_pending {instant : Date → Int} {dates : List (String × Date)} {q : String × Nat} :
    q ∈ pending instant now dates ↔
      ∃ date, (q.1, date) ∈ dates ∧ now ≤ instant date ∧ (q.2 : Int) = instant date - now := by
  unfold pending
  rw [List.mem_filterMap]
  constructor
  · rintro ⟨p, hp, hq⟩
    split_ifs at hq with hnow
    cases hq
    exact ⟨p.2, hp, hnow, by simp only; omega⟩
  · rintro ⟨date, hmem, hnow, hq⟩
    refine ⟨_, hmem, ?_⟩
    rw [if_pos hnow, ← hq]
    rfl

/-- A turn sleeps until the first of the times that its dates stand for, or polls if all of them are past. -/
theorem iteration_sleeps (h : iteration zone inputMap order now = .ok sleep) :
    ((∀ date t, Scheduled inputMap order date → StandsFor zone now date t → t < now) ∧ sleep = poll) ∨
    ∃ date, Scheduled inputMap order date ∧ StandsFor zone now date (now + sleep) ∧
      ∀ date' t, Scheduled inputMap order date' → StandsFor zone now date' t → now ≤ t → now + sleep ≤ t := by
  obtain ⟨dates, hdates, durations, hdurations, hsleep⟩ := iteration_eq_ok h
  have hinstant : ∀ p ∈ dates, StandsFor zone now p.2 (instantOf zone now p.2) := by
    intro p hp
    obtain ⟨t, ht⟩ := succeeds_toOrderedDurations.1 ⟨durations, hdurations⟩ p hp
    rw [ht.instantOf_eq]
    exact ht
  have hperm : durations.Perm (pending (instantOf zone now) now dates) := by
    rw [toOrderedDurations_eq hinstant] at hdurations
    cases hdurations
    exact List.mergeSort_perm _ _
  have hsorted : durations.Pairwise fun a b => a.2 ≤ b.2 := by
    rw [toOrderedDurations_eq hinstant] at hdurations
    cases hdurations
    exact pairwise_mergeSort Prod.snd _
  cases durations with
  | nil =>
    refine .inl ⟨fun date t hdate ht => ?_, hsleep⟩
    obtain ⟨id, hmem⟩ := (hdates date).1 hdate
    by_contra hnow
    rw [← ht.instantOf_eq] at hnow
    have hin : (id, (instantOf zone now date - now).toNat) ∈ pending (instantOf zone now) now dates :=
      mem_pending.2 ⟨date, hmem, by omega, by simp only; omega⟩
    rw [hperm.nil_eq.symm] at hin
    cases hin
  | cons next durations =>
    have hfirst : sleep = next.2 := hsleep
    obtain ⟨date, hmem, hnow, heq⟩ := mem_pending.1 (hperm.subset List.mem_cons_self)
    refine .inr ⟨date, (hdates date).2 ⟨_, hmem⟩, ?_, fun date' t hdate' ht hle => ?_⟩
    · rw [show now + (sleep : Int) = instantOf zone now date by omega]
      exact hinstant _ hmem
    · obtain ⟨id, hmem'⟩ := (hdates date').1 hdate'
      rw [← ht.instantOf_eq] at hle ⊢
      have hin : (id, (instantOf zone now date' - now).toNat) ∈ next :: durations :=
        hperm.mem_iff.2 (mem_pending.2 ⟨date', hmem', hle, by simp only; omega⟩)
      rcases List.mem_cons.1 hin with rfl | htail
      · simp only at hfirst
        omega
      · have hle' := (List.pairwise_cons.1 hsorted).1 _ htail
        simp only at hle'
        omega

end

/-! ## The occurrences -/

/-- The local time has the fields that the date has. -/
structure Denotes (date : Date) (datetime : NaiveDateTime) : Prop where
  year : ∀ year, date.year = some year → datetime.date.year = year.toInt
  month : ∀ month, date.month = some month → datetime.date.month = month.toNat
  day : ∀ day, date.day = some day → datetime.date.day = day.toNat
  hour : datetime.hour = date.hour.toNat
  min : datetime.min = date.min.toNat
  sec : datetime.sec = date.sec.toNat

/-- The date, filled in from the instant itself, stands for the instant. -/
def Occurs (zone : Zone) (date : Date) (t : Int) : Prop := StandsFor zone t date t

/-- None of the dates has an occurrence after `now` and before the end of the sleep. -/
def WakesInTime (zone : Zone) (now : Int) (sleep : Nat) (dates : Date → Prop) : Prop :=
  ∀ date t, dates date → Occurs zone date t → ¬ (now < t ∧ t < now + sleep)

/-- When a turn does not sleep through an occurrence. -/
structure Undisturbed (zone : Zone) (now : Int) (dates : Date → Prop) : Prop where
  /-- One of the dates is not past. Then each time to come that a date denotes on another day than the one it is filled
  in to has one of these before it. -/
  next : ∀ date₀ t₀, dates date₀ → StandsFor zone now date₀ t₀ → now ≤ t₀ →
    ∀ date datetime t, dates date → Denotes date datetime → ¬ FilledIn zone now date datetime →
      zone.fromLocalDatetime datetime = .single t → now < t →
      ∃ date' t', dates date' ∧ StandsFor zone now date' t' ∧ now ≤ t' ∧ t' ≤ t
  /-- All are past. Then no date denotes the start of the next day, or the last second of the day has not begun. -/
  poll : (∀ date t, dates date → StandsFor zone now date t → t < now) →
    ∀ date datetime t, dates date → Denotes date datetime → datetime.date.days = (zone.date now).days + 1 →
      datetime.hour = 0 ∧ datetime.min = 0 ∧ datetime.sec = 0 →
      zone.fromLocalDatetime datetime = .single t → now ≤ t - second

section
variable {zone : Zone} {now t : Int} {date : Date} {datetime : NaiveDateTime} {inputMap : InputContextMap}
  {order : List String} {offset minYear maxYear : Int} {sleep : Nat}

theorem FilledIn.denotes (h : FilledIn zone now date datetime) : Denotes date datetime where
  year year hy := by rw [h.year, hy]; rfl
  month month hm := by rw [h.month, hm]; rfl
  day day hd := by rw [h.day, hd]; rfl
  hour := h.hour
  min := h.min
  sec := h.sec

/-- On the day of a local time that it denotes, a date is filled in to this local time. -/
theorem Denotes.filledIn (h : Denotes date datetime) (hday : zone.date now = datetime.date) :
    FilledIn zone now date datetime where
  year := by
    rw [hday]
    cases hy : date.year with
    | none => rfl
    | some year => exact h.year year hy
  month := by
    rw [hday]
    cases hm : date.month with
    | none => rfl
    | some month => exact h.month month hm
  day := by
    rw [hday]
    cases hd : date.day with
    | none => rfl
    | some day => exact h.day day hd
  hour := h.hour
  min := h.min
  sec := h.sec

/-- Nothing is filled in to a full date. -/
theorem Denotes.filledIn_full (h : Denotes date datetime)
    (hfull : date.year.isSome ∧ date.month.isSome ∧ date.day.isSome) : FilledIn zone now date datetime := by
  obtain ⟨year, hy⟩ := Option.isSome_iff_exists.1 hfull.1
  obtain ⟨month, hm⟩ := Option.isSome_iff_exists.1 hfull.2.1
  obtain ⟨day, hd⟩ := Option.isSome_iff_exists.1 hfull.2.2
  constructor
  · rw [hy]
    exact h.year year hy
  · rw [hm]
    exact h.month month hm
  · rw [hd]
    exact h.day day hd
  · exact h.hour
  · exact h.min
  · exact h.sec

/-- The occurrences are the local times that the date denotes, on any day. -/
theorem occurs_fixed : Occurs (Zone.fixed offset minYear maxYear) date t ↔
    ∃ datetime, Denotes date datetime ∧ (Zone.fixed offset minYear maxYear).fromLocalDatetime datetime = .single t := by
  constructor
  · rintro ⟨datetime, hfilled, hsingle⟩
    exact ⟨datetime, hfilled.denotes, hsingle⟩
  · rintro ⟨datetime, hdenotes, hsingle⟩
    exact ⟨datetime, hdenotes.filledIn (Zone.date_fixed hsingle), hsingle⟩

/-- Full dates come once. -/
theorem undisturbed_of_full {dates : Date → Prop}
    (h : ∀ date, dates date → date.year.isSome ∧ date.month.isSome ∧ date.day.isSome) :
    Undisturbed (Zone.fixed offset minYear maxYear) now dates where
  next _ _ _ _ _ date _ _ hdate hdenotes hnot _ _ := absurd (hdenotes.filledIn_full (h date hdate)) hnot
  poll hpast date _ t hdate hdenotes hdays _ hsingle := by
    have hbefore : t < now := hpast date t hdate ⟨_, hdenotes.filledIn_full (h date hdate), hsingle⟩
    have hafter : now < t := Zone.lt_of_days_lt hsingle (by omega)
    omega

/-- With a date that is still to come on this day, no other day matters. -/
theorem undisturbed_of_today {dates : Date → Prop} {date₀ : Date} {t₀ : Int} (hdate₀ : dates date₀)
    (ht₀ : StandsFor (Zone.fixed offset minYear maxYear) now date₀ t₀) (hnow : now ≤ t₀)
    (htoday : (Zone.fixed offset minYear maxYear).date t₀ = (Zone.fixed offset minYear maxYear).date now) :
    Undisturbed (Zone.fixed offset minYear maxYear) now dates where
  next _ _ _ _ _ date datetime t _ hdenotes hnot hsingle hlt := by
    have hmono : ((Zone.fixed offset minYear maxYear).date now).days ≤ ((Zone.fixed offset minYear maxYear).date t).days :=
      Zone.days_date_mono (Int.le_of_lt hlt)
    have hother : ((Zone.fixed offset minYear maxYear).date now).days ≠ datetime.date.days := fun hsame =>
      hnot (hdenotes.filledIn (NaiveDate.days_injective hsame))
    rw [Zone.date_fixed hsingle] at hmono
    have hbefore : t₀ < t := Zone.lt_of_days_lt hsingle (by rw [htoday]; omega)
    exact ⟨date₀, t₀, hdate₀, ht₀, hnow, by omega⟩
  poll hpast := by
    have := hpast date₀ t₀ hdate₀ ht₀
    omega

/-- **A turn sleeps through no occurrence exactly when it is undisturbed.** -/
theorem no_occurrence_slept_through_iff
    (h : iteration (Zone.fixed offset minYear maxYear) inputMap order now = .ok sleep) :
    WakesInTime (Zone.fixed offset minYear maxYear) now sleep (Scheduled inputMap order) ↔
      Undisturbed (Zone.fixed offset minYear maxYear) now (Scheduled inputMap order) := by
  constructor
  · intro hnone
    have hle : ∀ date datetime t, Scheduled inputMap order date → Denotes date datetime →
        (Zone.fixed offset minYear maxYear).fromLocalDatetime datetime = .single t → now < t → now + sleep ≤ t := by
      intro date datetime t hdate hdenotes hsingle hlt
      by_contra hnot
      exact hnone date t hdate (occurs_fixed.2 ⟨datetime, hdenotes, hsingle⟩) ⟨hlt, by omega⟩
    constructor
    · intro date₀ t₀ hdate₀ ht₀ hnow date datetime t hdate hdenotes _ hsingle hlt
      rcases iteration_sleeps h with ⟨hpast, _⟩ | ⟨date', hdate', ht', _⟩
      · have := hpast date₀ t₀ hdate₀ ht₀
        omega
      · exact ⟨date', _, hdate', ht', by omega, hle date datetime t hdate hdenotes hsingle hlt⟩
    · intro hpast date datetime t hdate hdenotes hdays hmidnight hsingle
      rcases iteration_sleeps h with ⟨_, hsleep⟩ | ⟨date', hdate', ht', _⟩
      · have hlt : now < t := Zone.lt_of_days_lt hsingle (by omega)
        have := hle date datetime t hdate hdenotes hsingle hlt
        rw [hsleep] at this
        unfold TimeController.poll at this
        unfold second
        omega
      · have := hpast date' _ hdate' ht'
        omega
  · intro hundisturbed date t hdate hoccurs ⟨hlt, hwake⟩
    obtain ⟨datetime, hdenotes, hsingle⟩ := occurs_fixed.1 hoccurs
    rcases iteration_sleeps h with ⟨hpast, hsleep⟩ | ⟨date', hdate', ht', hfirst⟩
    · rw [hsleep] at hwake
      rcases Zone.date_fixed_or hsingle hlt hwake with hday | ⟨hdays, hmidnight⟩
      · have := hpast date t hdate ⟨datetime, hdenotes.filledIn hday, hsingle⟩
        omega
      · have := hundisturbed.poll hpast date datetime t hdate hdenotes hdays hmidnight hsingle
        unfold TimeController.poll at hwake
        unfold second at this
        omega
    · by_cases hfilled : FilledIn (Zone.fixed offset minYear maxYear) now date datetime
      · have := hfirst date t hdate ⟨datetime, hfilled, hsingle⟩ (by omega)
        omega
      · obtain ⟨date'', t'', hdate'', ht'', hnow'', hle⟩ :=
          hundisturbed.next date' _ hdate' ht' (by omega) date datetime t hdate hdenotes hfilled hsingle hlt
        have := hfirst date'' t'' hdate'' ht'' hnow''
        omega

end

/-! ## A day without its alarm -/

/-- At noon, on the 20th of January 2024. -/
def party : Input := input "party" (.inputTime ⟨some 2024, some 1, some 20, 12, 0, 0⟩)

/-- The inputs of the time controller of a house without rules. -/
def timeInputs (inputs : List Input) : InputContextMap :=
  filterInput (makeInputContextMap (house inputs) ⟨[]⟩) (inputs.map (·.id))

/-- At midnight, every day. -/
def midnight : Input := input "midnight" (.inputTime ⟨none, none, none, 0, 0, 0⟩)

/-- Whatever the instant at which the fields that are left out are filled in, the date stands for one. -/
def AlwaysValid (date : Date) : Prop :=
  ∀ now, -262143 ≤ (utc.date now).year → (utc.date now).year ≤ 262142 → ∃ t, StandsFor utc now date t

theorem alwaysValid_daily {hour : UInt32} (h : hour.toNat < 24) : AlwaysValid ⟨none, none, none, hour, 0, 0⟩ := by
  intro now hmin hmax
  let datetime : NaiveDateTime := ⟨utc.date now, hour.toNat, 0, 0, h, by decide, by decide⟩
  exact ⟨(datetime.seconds - 0) * second, datetime, ⟨rfl, rfl, rfl, rfl, rfl, rfl⟩, if_pos ⟨hmin, hmax⟩⟩

theorem alwaysValid_party : AlwaysValid ⟨some 2024, some 1, some 20, 12, 0, 0⟩ := by
  intro now _ _
  let datetime : NaiveDateTime := ⟨⟨2024, 1, 20, by decide, by decide⟩, 12, 0, 0, by decide, by decide, by decide⟩
  exact ⟨(datetime.seconds - 0) * second, datetime, ⟨rfl, rfl, rfl, rfl, rfl, rfl⟩, by decide +kernel⟩

/-- The dates of two inputs. -/
theorem scheduled_pair (a b : Input) {dateA dateB : Date}
    (ha : (timeInputs [a, b]).lookup a.id = some ⟨a, none⟩) (hb : (timeInputs [a, b]).lookup b.id = some ⟨b, none⟩)
    (hkindA : a.kind = .inputTime dateA) (hkindB : b.kind = .inputTime dateB) (date : Date) :
    Scheduled (timeInputs [a, b]) [a.id, b.id] date ↔ date = dateA ∨ date = dateB := by
  constructor
  · rintro ⟨id, hid, context, hl, hkind⟩
    rcases List.mem_pair.1 hid with rfl | rfl
    · rw [ha] at hl
      cases hl
      exact .inl (InputKind.inputTime.inj (hkind.symm.trans hkindA))
    · rw [hb] at hl
      cases hl
      exact .inr (InputKind.inputTime.inj (hkind.symm.trans hkindB))
  · rintro (rfl | rfl)
    · exact ⟨a.id, List.mem_cons_self, _, ha, hkindA⟩
    · exact ⟨b.id, List.mem_cons_of_mem _ List.mem_cons_self, _, hb, hkindB⟩

/-- On the 15th of January at noon the controller goes to sleep until the party, through the five alarms before it. Half
a second before midnight it polls, and when it looks again, midnight is that of the day that has begun, and past. -/
theorem slept_through :
    (iteration utc (timeInputs [alarm, party]) ["alarm", "party"] january = .ok (5 * 86400 * 1000000000) ∧
      (∀ date, Scheduled (timeInputs [alarm, party]) ["alarm", "party"] date → AlwaysValid date) ∧
      ¬ WakesInTime utc january (5 * 86400 * 1000000000) (Scheduled (timeInputs [alarm, party]) ["alarm", "party"])) ∧
    iteration utc (timeInputs [alarm, midnight]) ["alarm", "midnight"] (january + 43199500000000) = .ok poll ∧
      (∀ date, Scheduled (timeInputs [alarm, midnight]) ["alarm", "midnight"] date → AlwaysValid date) ∧
      ¬ WakesInTime utc (january + 43199500000000) poll
        (Scheduled (timeInputs [alarm, midnight]) ["alarm", "midnight"]) := by
  have hparty := scheduled_pair alarm party (by decide +kernel) (by decide +kernel) rfl rfl
  have hmidnight := scheduled_pair alarm midnight (by decide +kernel) (by decide +kernel) rfl rfl
  refine ⟨⟨by decide +kernel, fun date h => ?_, fun h => ?_⟩, by decide +kernel, fun date h => ?_, fun h => ?_⟩
  · rcases (hparty date).1 h with rfl | rfl
    · exact alwaysValid_daily (by decide)
    · exact alwaysValid_party
  · exact h _ (january + 68400 * second) ((hparty _).2 (.inl rfl)) (localTime_eq_single.1 (by decide +kernel))
      ⟨by decide, by decide⟩
  · rcases (hmidnight date).1 h with rfl | rfl
    · exact alwaysValid_daily (by decide)
    · exact alwaysValid_daily (by decide)
  · exact h _ (january + 43200 * second) ((hmidnight _).2 (.inr rfl)) (localTime_eq_single.1 (by decide +kernel))
      ⟨by decide, by decide⟩

/-- An alarm that is past today is not missed in the next second. -/
theorem alarm_not_slept_through : WakesInTime utc january poll (Scheduled (timeInputs [alarm]) ["alarm"]) := by
  have hturn : iteration utc (timeInputs [alarm]) ["alarm"] january = .ok poll := by decide +kernel
  have hlookup : (timeInputs [alarm]).lookup "alarm" = some ⟨alarm, none⟩ := by decide +kernel
  have hdate : ∀ date, Scheduled (timeInputs [alarm]) ["alarm"] date → date = ⟨none, none, none, 7, 0, 0⟩ := by
    rintro date ⟨id, hid, context, hl, hkind⟩
    rw [List.mem_singleton.1 hid, hlookup] at hl
    cases hl
    cases hkind
    rfl
  refine (no_occurrence_slept_through_iff hturn).2 ⟨?_, ?_⟩
  · intro date₀ t₀ hdate₀ ht₀ hnow
    rw [hdate date₀ hdate₀] at ht₀
    have hpast : instantOf utc january ⟨none, none, none, 7, 0, 0⟩ < january := by decide +kernel
    have heq : instantOf utc january ⟨none, none, none, 7, 0, 0⟩ = t₀ := ht₀.instantOf_eq
    omega
  · intro _ date datetime t hscheduled hdenotes _ hmidnight
    have hhour := hdenotes.hour
    rw [hdate date hscheduled, hmidnight.1] at hhour
    cases hhour

end Calaos.TimeController
