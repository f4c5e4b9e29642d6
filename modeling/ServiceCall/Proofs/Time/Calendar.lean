import ServiceCall.Time.Calendar
import Mathlib.Order.Monotone.Basic
import Mathlib.Algebra.Order.Group.Nat
import Mathlib.Tactic.IntervalCases

/-!
# The calendar, second by second

What calendar and clock show is found by going on from the beginning of 1970 one second after the
other. The number of a date says how many seconds that takes: months and leap years are counted in
right, and no two dates have one number.
-/

namespace ServiceCall.CalendarTime

variable {t t' : CalendarTime} {n y m : Nat}

/-! ## One second after the other -/

/-- The first second of 1970, a Thursday. -/
def epoch : CalendarTime := ⟨1970, 1, 1, 0, 0, 0, 4⟩

/-- The same time on the next day. -/
def tomorrow (t : CalendarTime) : CalendarTime :=
  let weekday := t.weekday % 7 + 1
  if t.day < daysInMonth t.year t.month then { t with day := t.day + 1, weekday }
  else if t.month < 12 then { t with month := t.month + 1, day := 1, weekday }
  else { t with year := t.year + 1, month := 1, day := 1, weekday }

/-- The next second. -/
def tick (t : CalendarTime) : CalendarTime :=
  if t.second < 59 then { t with second := t.second + 1 }
  else if t.minute < 59 then { t with minute := t.minute + 1, second := 0 }
  else if t.hour < 23 then { t with hour := t.hour + 1, minute := 0, second := 0 }
  else { t.tomorrow with hour := 0, minute := 0, second := 0 }

/-- What calendar and clock show so many seconds after the beginning of 1970. -/
def ofSeconds : Nat → CalendarTime
  | 0 => epoch
  | n + 1 => (ofSeconds n).tick

/-- A second that calendar and clock can show, in whatever year. -/
structure InCalendar (t : CalendarTime) : Prop where
  year : 1970 ≤ t.year
  month : 1 ≤ t.month ∧ t.month ≤ 12
  day : 1 ≤ t.day ∧ t.day ≤ daysInMonth t.year t.month
  hour : t.hour < 24
  minute : t.minute < 60
  second : t.second < 60
  weekday : t.weekday = weekdayOf t.dayNumber

theorem isValid_iff : t.IsValid ↔ t.InCalendar ∧ t.year ≤ 9999 := by
  constructor
  · rintro ⟨hyear, hlast, hmonth, hmonth', hday, hday', hhour, hminute, hsecond, hweekday⟩
    exact ⟨⟨hyear, ⟨hmonth, hmonth'⟩, ⟨hday, hday'⟩, hhour, hminute, hsecond, hweekday⟩, hlast⟩
  · rintro ⟨h, hlast⟩
    exact ⟨h.year, hlast, h.month.1, h.month.2, h.day.1, h.day.2, h.hour, h.minute, h.second,
      h.weekday⟩

/-! ## Days before a month and before a year -/

theorem isLeapYear_iff :
    isLeapYear y = true ↔ y % 4 = 0 ∧ (y % 100 ≠ 0 ∨ y % 400 = 0) := by
  simp [isLeapYear]

theorem daysInMonth_pos (hm : 1 ≤ m ∧ m ≤ 12) : 1 ≤ daysInMonth y m := by
  obtain ⟨hm, hm'⟩ := hm
  unfold daysInMonth monthLengths
  cases isLeapYear y <;> interval_cases m <;> decide

theorem daysBeforeMonth_succ (hm : 1 ≤ m) :
    daysBeforeMonth y (m + 1) = daysBeforeMonth y m + daysInMonth y m := by
  obtain ⟨k, rfl⟩ := Nat.exists_eq_add_of_le' hm
  unfold daysBeforeMonth daysInMonth
  rw [Nat.add_sub_cancel, Nat.add_sub_cancel, List.take_add_one, List.foldl_append, List.getD]
  cases (monthLengths y)[k]? <;> rfl

theorem daysBeforeMonth_thirteen :
    daysBeforeMonth y 13 = if isLeapYear y then 366 else 365 := by
  unfold daysBeforeMonth monthLengths
  cases isLeapYear y <;> rfl

theorem daysBeforeYear_succ (hy : 1 ≤ y) :
    daysBeforeYear (y + 1) = daysBeforeYear y + daysBeforeMonth y 13 := by
  obtain ⟨p, rfl⟩ := Nat.exists_eq_add_of_le' hy
  have hdiv : ∀ k, (p + 1) / k = p / k + if (p + 1) % k = 0 then 1 else 0 := by
    intro k
    rw [Nat.succ_div]
    simp only [Nat.dvd_iff_mod_eq_zero]
  have hle : p / 100 ≤ p / 4 := by omega
  simp only [daysBeforeMonth_thirteen, isLeapYear_iff, daysBeforeYear, Nat.add_sub_cancel, hdiv]
  generalize p / 4 = fours at *
  generalize p / 100 = centuries at *
  generalize p / 400 = cycles
  by_cases h400 : (p + 1) % 400 = 0
  · have h100 : (p + 1) % 100 = 0 := by omega
    have h4 : (p + 1) % 4 = 0 := by omega
    simp only [h400, h100, h4, if_true, true_and, or_true]
    clear * - hle
    omega
  · by_cases h100 : (p + 1) % 100 = 0
    · have h4 : (p + 1) % 4 = 0 := by omega
      simp only [h400, h100, h4, if_true, if_false, ne_eq, not_true_eq_false, or_self, and_false]
      clear * - hle
      omega
    · simp only [h400, h100, if_false, ne_eq, not_false_eq_true, true_or, and_true]
      split <;> clear * - hle <;> omega

theorem daysBeforeMonth_mono : Monotone (daysBeforeMonth y) := by
  apply monotone_nat_of_le_succ
  intro m
  rcases Nat.eq_zero_or_pos m with rfl | hm
  · exact Nat.le_refl _
  · rw [daysBeforeMonth_succ hm]
    exact Nat.le_add_right _ _

theorem daysBeforeYear_mono : Monotone daysBeforeYear := by
  apply monotone_nat_of_le_succ
  intro y
  rcases Nat.eq_zero_or_pos y with rfl | hy
  · exact Nat.le_refl _
  · rw [daysBeforeYear_succ hy]
    exact Nat.le_add_right _ _

/-! ## Days and seconds of a date -/

namespace InCalendar

variable (h : t.InCalendar)

include h

theorem dayNumber_add : t.dayNumber + daysBeforeYear 1970 =
    daysBeforeYear t.year + (daysBeforeMonth t.year t.month + (t.day - 1)) := by
  have hyear := daysBeforeYear_mono h.year
  unfold dayNumber
  omega

/-- The day falls into its month. -/
theorem monthDay_lt :
    daysBeforeMonth t.year t.month + (t.day - 1) < daysBeforeMonth t.year (t.month + 1) := by
  have hday := h.day
  rw [daysBeforeMonth_succ h.month.1]
  omega

/-- The day falls into its year. -/
theorem yearDay_lt :
    t.dayNumber + daysBeforeYear 1970 < daysBeforeYear (t.year + 1) := by
  have hmonth : daysBeforeMonth t.year (t.month + 1) ≤ daysBeforeMonth t.year 13 :=
    daysBeforeMonth_mono (Nat.succ_le_succ h.month.2)
  have hday := h.monthDay_lt
  have hyear := h.year
  rw [h.dayNumber_add, daysBeforeYear_succ (by omega)]
  omega

theorem dayNumber_tomorrow : t.tomorrow.dayNumber = t.dayNumber + 1 := by
  have hday := h.day
  have hbefore := daysBeforeYear_mono h.year
  unfold tomorrow
  dsimp only
  split
  · simp only [dayNumber]
    omega
  · have hlast : t.day = daysInMonth t.year t.month := by omega
    split
    · have hmonth := daysBeforeMonth_succ (y := t.year) h.month.1
      simp only [dayNumber]
      omega
    · have hdecember : t.month = 12 := by
        have := h.month.2
        omega
      have hyear : daysBeforeYear (t.year + 1) = daysBeforeYear t.year + _ :=
        daysBeforeYear_succ (by have := h.year; omega)
      have hmonth : daysBeforeMonth t.year 13 = daysBeforeMonth t.year 12 + _ :=
        daysBeforeMonth_succ (by decide)
      have hjanuary : daysBeforeMonth (t.year + 1) 1 = 0 := rfl
      rw [hdecember] at hlast
      simp only [dayNumber, hjanuary, hdecember]
      omega

theorem tomorrow : t.tomorrow.InCalendar := by
  obtain ⟨hmonth, hmonth'⟩ := h.month
  have hyear := h.year
  have hweekday : t.tomorrow.weekday = weekdayOf t.tomorrow.dayNumber := by
    have hnext : t.tomorrow.weekday = t.weekday % 7 + 1 := by
      unfold CalendarTime.tomorrow
      dsimp only
      split
      · rfl
      · split <;> rfl
    rw [hnext, h.dayNumber_tomorrow, h.weekday]
    unfold weekdayOf
    omega
  revert hweekday
  unfold CalendarTime.tomorrow
  dsimp only
  split
  · rename_i hlt
    exact fun hweekday => ⟨hyear, h.month, ⟨Nat.le_add_left 1 _, hlt⟩, h.hour, h.minute, h.second,
      hweekday⟩
  · split
    · rename_i hlt
      have hnext : 1 ≤ t.month + 1 ∧ t.month + 1 ≤ 12 := by omega
      exact fun hweekday => ⟨hyear, hnext, ⟨Nat.le_refl 1, daysInMonth_pos hnext⟩, h.hour,
        h.minute, h.second, hweekday⟩
    · have hjanuary : 1 ≤ 1 ∧ 1 ≤ 12 := by decide
      exact fun hweekday => ⟨Nat.le_succ_of_le hyear, hjanuary,
        ⟨Nat.le_refl 1, daysInMonth_pos hjanuary⟩, h.hour, h.minute, h.second, hweekday⟩

theorem toSeconds_tick : t.tick.toSeconds = t.toSeconds + 1 := by
  have hsecond := h.second
  have hminute := h.minute
  have hhour := h.hour
  have htomorrow := h.dayNumber_tomorrow
  unfold tick
  split
  · simp only [toSeconds, dayNumber]
    omega
  · split
    · simp only [toSeconds, dayNumber]
      omega
    · split
      · simp only [toSeconds, dayNumber]
        omega
      · simp only [toSeconds, dayNumber] at *
        omega

theorem tick : t.tick.InCalendar := by
  have hsecond := h.second
  have hminute := h.minute
  have hhour := h.hour
  have hzero : 0 < 60 := by decide
  unfold CalendarTime.tick
  split
  · exact ⟨h.year, h.month, h.day, hhour, hminute, by dsimp only; omega, h.weekday⟩
  · split
    · exact ⟨h.year, h.month, h.day, hhour, by dsimp only; omega, hzero, h.weekday⟩
    · split
      · exact ⟨h.year, h.month, h.day, by dsimp only; omega, hzero, hzero, h.weekday⟩
      · have hnext := h.tomorrow
        have hmidnight : 0 < 24 := by decide
        exact ⟨hnext.year, hnext.month, hnext.day, hmidnight, hzero, hzero, hnext.weekday⟩

end InCalendar

theorem inCalendar_epoch : epoch.InCalendar :=
  (isValid_iff.mp (by decide)).1

/-- Every second is one that calendar and clock can show, and its number is the seconds gone by. -/
theorem ofSeconds_counted (n : Nat) : (ofSeconds n).InCalendar ∧ (ofSeconds n).toSeconds = n := by
  induction n with
  | zero => exact ⟨inCalendar_epoch, by decide⟩
  | succ n ih =>
    obtain ⟨hin, hseconds⟩ := ih
    refine ⟨hin.tick, ?_⟩
    rw [ofSeconds, hin.toSeconds_tick, hseconds]

theorem inCalendar_ofSeconds (n : Nat) : (ofSeconds n).InCalendar := (ofSeconds_counted n).1

theorem toSeconds_ofSeconds (n : Nat) : (ofSeconds n).toSeconds = n := (ofSeconds_counted n).2

/-- The seconds before a year are those of the days before it. -/
theorem InCalendar.year_lt_iff (h : t.InCalendar) :
    t.year < y ↔ t.toSeconds < (daysBeforeYear y - daysBeforeYear 1970) * 86400 := by
  have hclock := And.intro h.hour (And.intro h.minute h.second)
  have hdays := h.dayNumber_add
  have hseconds : t.toSeconds = t.dayNumber * 86400 + (t.hour * 60 + t.minute) * 60 + t.second := by
    unfold toSeconds
    omega
  constructor
  · intro hlt
    have hyear := h.yearDay_lt
    have hle : daysBeforeYear (t.year + 1) ≤ daysBeforeYear y := daysBeforeYear_mono hlt
    omega
  · intro hlt
    by_contra hge
    have hle : daysBeforeYear y ≤ daysBeforeYear t.year := daysBeforeYear_mono (by omega)
    omega

/-! ## One date for each number -/

/-- What lies between two neighbours of a rising sequence lies between no others. -/
theorem eq_of_between {f : Nat → Nat} (hf : Monotone f) {a b x : Nat} (ha : f a ≤ x)
    (ha' : x < f (a + 1)) (hb : f b ≤ x) (hb' : x < f (b + 1)) : a = b := by
  rcases Nat.lt_trichotomy a b with hlt | heq | hlt
  · have hle : f (a + 1) ≤ f b := hf hlt
    omega
  · exact heq
  · have hle : f (b + 1) ≤ f a := hf hlt
    omega

theorem InCalendar.eq_of_toSeconds (h : t.InCalendar) (h' : t'.InCalendar)
    (heq : t.toSeconds = t'.toSeconds) : t = t' := by
  have hclock : t.dayNumber = t'.dayNumber ∧ t.hour = t'.hour ∧ t.minute = t'.minute ∧
      t.second = t'.second := by
    have := And.intro h.hour (And.intro h.minute h.second)
    have := And.intro h'.hour (And.intro h'.minute h'.second)
    unfold toSeconds at heq
    omega
  obtain ⟨hnumber, hhour, hminute, hsecond⟩ := hclock
  have hdays := h.dayNumber_add
  have hdays' := h'.dayNumber_add
  have hyear : t.year = t'.year := by
    have hlt' := h'.yearDay_lt
    rw [← hnumber] at hdays' hlt'
    exact eq_of_between daysBeforeYear_mono (by omega) h.yearDay_lt (by omega) hlt'
  have hmonth : t.month = t'.month := by
    have hlt := h.monthDay_lt
    have hlt' := h'.monthDay_lt
    rw [hyear] at hdays hlt
    have hsame : daysBeforeMonth t'.year t.month + (t.day - 1) =
        daysBeforeMonth t'.year t'.month + (t'.day - 1) := by omega
    rw [← hsame] at hlt'
    exact eq_of_between daysBeforeMonth_mono (by omega) hlt (by omega) hlt'
  have hday : t.day = t'.day := by
    have := And.intro h.day.1 h'.day.1
    rw [hyear, hmonth] at hdays
    omega
  have hweekday : t.weekday = t'.weekday := by
    rw [h.weekday, h'.weekday, hnumber]
  cases t
  cases t'
  simp_all only

/-- Every date that the calendar has is shown at some second, its own. -/
theorem InCalendar.ofSeconds_toSeconds (h : t.InCalendar) : ofSeconds t.toSeconds = t :=
  (inCalendar_ofSeconds _).eq_of_toSeconds h (toSeconds_ofSeconds _)

end ServiceCall.CalendarTime
