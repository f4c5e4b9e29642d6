import ServiceCall.Proofs.Time.Calendar
import ServiceCall.Proofs.Text.Pieces
import ServiceCall.Proofs.Text.Unicode

/-!
# Dates as they are written

A date has three written forms, and each is read back as the date. The form with two digits for the
year serves for a hundred years only.
-/

namespace ServiceCall

/-- A form in which a date may be written. -/
inductive DateForm where
  /-- As in `Sun, 06 Nov 1994 08:49:37 GMT`. -/
  | fixed
  /-- As in `Sunday, 06-Nov-94 08:49:37 GMT`. -/
  | dashed
  /-- As in `Sun Nov  6 08:49:37 1994`, where a day below ten may have a zero in front instead. -/
  | plain (zero : Bool)

/-- The last year that can be written in the form. -/
def DateForm.lastYear : DateForm → Nat
  | .dashed => 2069
  | _ => 9999

theorem DateForm.lastYear_le (form : DateForm) : form.lastYear ≤ 9999 := by
  cases form <;> simp [lastYear]

namespace CalendarTime

/-! ## Writing -/

def digits (width n : Nat) : List Char := (Text.padded width n).toList

def weekdayChars (t : CalendarTime) : List Char := (weekdayNames.getD (t.weekday - 1) "").toList

def monthChars (t : CalendarTime) : List Char := (monthNames.getD (t.month - 1) "").toList

def clockChars (t : CalendarTime) : List Char :=
  digits 2 t.hour ++ ':' :: digits 2 t.minute ++ ':' :: digits 2 t.second

def plainDay (zero : Bool) (day : Nat) : List Char :=
  if day < 10 ∧ zero = false then ' ' :: digits 1 day else digits 2 day

def written : DateForm → CalendarTime → List Char
  | .fixed, t =>
    t.weekdayChars.take 3 ++ [',', ' '] ++ digits 2 t.day ++ [' '] ++ t.monthChars ++ [' '] ++
      digits 4 t.year ++ [' '] ++ t.clockChars ++ [' ', 'G', 'M', 'T']
  | .dashed, t =>
    t.weekdayChars ++ [',', ' '] ++ (digits 2 t.day ++ ['-'] ++ t.monthChars ++ ['-'] ++
      digits 2 (t.year % 100) ++ [' '] ++ t.clockChars ++ [' ', 'G', 'M', 'T'])
  | .plain zero, t =>
    t.weekdayChars.take 3 ++ [' '] ++ t.monthChars ++ [' '] ++ plainDay zero t.day ++ [' '] ++
      t.clockChars ++ [' '] ++ digits 4 t.year

/-! ## The parts of a form -/

variable {t : CalendarTime} {n : Nat} {form : DateForm}

theorem exists_digits_two (h : n < 100) :
    ∃ a b, digits 2 n = [a, b] ∧ Text.digitsNumber? [a, b] = some n := by
  obtain ⟨a, b, hcs⟩ := List.length_eq_two.mp (Text.length_padded (by decide) h)
  exact ⟨a, b, hcs, hcs ▸ Text.digitsNumber?_padded 2 n⟩

theorem exists_digits_four (h : n < 10000) :
    ∃ a b c d, digits 4 n = [a, b, c, d] ∧ Text.digitsNumber? [a, b, c, d] = some n := by
  have hlength : (Text.padded 4 n).toList.length = 4 := Text.length_padded (by decide) h
  obtain ⟨a, b, c, d, hcs⟩ : ∃ a b c d, (Text.padded 4 n).toList = [a, b, c, d] := by
    match (Text.padded 4 n).toList, hlength with
    | [a, b, c, d], _ => exact ⟨a, b, c, d, rfl⟩
  exact ⟨a, b, c, d, hcs, hcs ▸ Text.digitsNumber?_padded 4 n⟩

namespace InCalendar

variable (h : t.InCalendar)

include h

theorem weekday_mem : 1 ≤ t.weekday ∧ t.weekday ≤ 7 := by
  rw [h.weekday]
  unfold weekdayOf
  omega

theorem exists_weekday : ∃ a b c, t.weekdayChars.take 3 = [a, b, c] ∧
    shortWeekdayNamed? [',', ' '] [a, b, c, ',', ' '] = some t.weekday ∧
    shortWeekdayNamed? [' '] [a, b, c, ' '] = some t.weekday := by
  obtain ⟨hlow, hhigh⟩ := h.weekday_mem
  unfold weekdayChars
  interval_cases t.weekday <;> exact ⟨_, _, _, rfl, by decide, by decide⟩

theorem exists_month : ∃ a b c, t.monthChars = [a, b, c] ∧
    monthNamed? ' ' ' ' [' ', a, b, c, ' '] = some t.month ∧
    monthNamed? '-' '-' ['-', a, b, c, '-'] = some t.month := by
  obtain ⟨hlow, hhigh⟩ := h.month
  unfold monthChars
  interval_cases t.month <;> exact ⟨_, _, _, rfl, by decide, by decide⟩

theorem exists_clock : ∃ h₁ h₂ i₁ i₂ s₁ s₂,
    t.clockChars = [h₁, h₂, ':', i₁, i₂, ':', s₁, s₂] ∧
      Text.digitsNumber? [h₁, h₂] = some t.hour ∧ Text.digitsNumber? [i₁, i₂] = some t.minute ∧
      Text.digitsNumber? [s₁, s₂] = some t.second := by
  obtain ⟨h₁, h₂, hh, hhour⟩ := exists_digits_two (Nat.lt_trans h.hour (by decide))
  obtain ⟨i₁, i₂, hi, hminute⟩ := exists_digits_two (Nat.lt_trans h.minute (by decide))
  obtain ⟨s₁, s₂, hs, hsecond⟩ := exists_digits_two (Nat.lt_trans h.second (by decide))
  exact ⟨h₁, h₂, i₁, i₂, s₁, s₂, by rw [clockChars, hh, hi, hs]; rfl, hhour, hminute, hsecond⟩

theorem day_lt : t.day < 100 := by
  have hlength : ∀ length ∈ monthLengths t.year, length < 100 := by
    unfold monthLengths
    cases isLeapYear t.year <;> decide
  have hday := h.day.2
  unfold daysInMonth at hday
  rw [List.getD_eq_getElem?_getD] at hday
  cases hlookup : (monthLengths t.year)[t.month - 1]? with
  | none =>
    rw [hlookup, Option.getD_none] at hday
    omega
  | some length =>
    rw [hlookup, Option.getD_some] at hday
    exact Nat.lt_of_le_of_lt hday (hlength length (List.mem_of_getElem? hlookup))

theorem exists_plainDay (zero : Bool) : ∃ a b, plainDay zero t.day = [a, b] ∧
    (if a = ' ' then Text.digitsNumber? [b] else Text.digitsNumber? [a, b]) = some t.day := by
  unfold plainDay
  split
  · rename_i hone
    have hlength : (Text.padded 1 t.day).toList.length = 1 := Text.length_padded (by decide) hone.1
    obtain ⟨d, hd⟩ := List.length_eq_one_iff.mp hlength
    refine ⟨' ', d, congrArg _ hd, ?_⟩
    rw [if_pos rfl, ← hd, Text.digitsNumber?_padded]
  · obtain ⟨d₁, d₂, hd, hday⟩ := exists_digits_two h.day_lt
    have hdigit : d₁.isDigit = true := Text.isDigit_of_mem_padded d₁ (hd ▸ List.mem_cons_self)
    have hne : d₁ ≠ ' ' := by
      rintro rfl
      exact absurd hdigit (by decide)
    exact ⟨d₁, d₂, hd, by rw [if_neg hne, hday]⟩

/-! ## Reading each form -/

theorem fixedForm?_written (hyear : t.year < 10000) : fixedForm? (t.written .fixed) = some t := by
  obtain ⟨w₁, w₂, w₃, hw, hweekday, -⟩ := h.exists_weekday
  obtain ⟨d₁, d₂, hd, hday⟩ := exists_digits_two h.day_lt
  obtain ⟨m₁, m₂, m₃, hm, hmonth, -⟩ := h.exists_month
  obtain ⟨y₁, y₂, y₃, y₄, hy, hyear⟩ := exists_digits_four hyear
  obtain ⟨h₁, h₂, i₁, i₂, s₁, s₂, hclock, hhour, hminute, hsecond⟩ := h.exists_clock
  simp only [written, hw, hd, hm, hy, hclock]
  simp [fixedForm?, number?, slice, hweekday, hday, hmonth, hyear, hhour, hminute, hsecond]

/-- A full name is told from the others by its beginning, whatever comes behind it. -/
theorem leadingWeekday?_weekdayChars (rest : List Char) :
    leadingWeekday? (t.weekdayChars ++ [',', ' '] ++ rest) = some (t.weekday, rest) := by
  obtain ⟨hlow, hhigh⟩ := h.weekday_mem
  unfold weekdayChars
  interval_cases t.weekday <;> rfl

theorem dashedForm?_written (hyear : t.year < 2070) : dashedForm? (t.written .dashed) = some t := by
  have hfirst := h.year
  obtain ⟨d₁, d₂, hd, hday⟩ := exists_digits_two h.day_lt
  obtain ⟨m₁, m₂, m₃, hm, -, hmonth⟩ := h.exists_month
  obtain ⟨y₁, y₂, hy, hyears⟩ := exists_digits_two (Nat.mod_lt t.year (by decide : 0 < 100))
  obtain ⟨h₁, h₂, i₁, i₂, s₁, s₂, hclock, hhour, hminute, hsecond⟩ := h.exists_clock
  -- Two digits name one year of the hundred from 1970 on.
  have hcentury : (if t.year % 100 < 70 then 2000 + t.year % 100 else 1900 + t.year % 100) =
      t.year := by
    split <;> omega
  unfold dashedForm?
  rw [written, h.leadingWeekday?_weekdayChars, hd, hm, hy, hclock]
  simp [number?, slice, hday, hmonth, hyears, hhour, hminute, hsecond, hcentury]

theorem plainForm?_written (zero : Bool) (hyear : t.year < 10000) :
    plainForm? (t.written (.plain zero)) = some t := by
  obtain ⟨w₁, w₂, w₃, hw, -, hweekday⟩ := h.exists_weekday
  obtain ⟨d₁, d₂, hd, hday⟩ := h.exists_plainDay zero
  obtain ⟨m₁, m₂, m₃, hm, hmonth, -⟩ := h.exists_month
  obtain ⟨y₁, y₂, y₃, y₄, hy, hyear⟩ := exists_digits_four hyear
  obtain ⟨h₁, h₂, i₁, i₂, s₁, s₂, hclock, hhour, hminute, hsecond⟩ := h.exists_clock
  simp only [written, hw, hd, hm, hy, hclock]
  by_cases hspace : d₁ = ' '
  · rw [if_pos hspace] at hday
    simp [plainForm?, number?, slice, hweekday, hmonth, hyear, hhour, hminute, hsecond, hspace, hday]
  · rw [if_neg hspace] at hday
    simp [plainForm?, number?, slice, hweekday, hmonth, hyear, hhour, hminute, hsecond, hspace, hday]

/-! ## Telling the forms apart -/

theorem fixedForm?_dashed : fixedForm? (t.written .dashed) = none := by
  obtain ⟨d₁, d₂, hd, -⟩ := exists_digits_two h.day_lt
  obtain ⟨m₁, m₂, m₃, hm, -⟩ := h.exists_month
  obtain ⟨y₁, y₂, hy, -⟩ := exists_digits_two (Nat.mod_lt t.year (by decide : 0 < 100))
  obtain ⟨h₁, h₂, i₁, i₂, s₁, s₂, hclock, -⟩ := h.exists_clock
  have hname : 6 ≤ t.weekdayChars.length := by
    obtain ⟨hlow, hhigh⟩ := h.weekday_mem
    unfold weekdayChars
    interval_cases t.weekday <;> decide
  have hlength : (t.written .dashed).length ≠ 29 := by
    simp [written, hd, hm, hy, hclock]
    omega
  simp [fixedForm?, hlength]

theorem fixedForm?_plain (zero : Bool) (hyear : t.year < 10000) :
    fixedForm? (t.written (.plain zero)) = none := by
  obtain ⟨w₁, w₂, w₃, hw, -⟩ := h.exists_weekday
  obtain ⟨d₁, d₂, hd, -⟩ := h.exists_plainDay zero
  obtain ⟨m₁, m₂, m₃, hm, -⟩ := h.exists_month
  obtain ⟨y₁, y₂, y₃, y₄, hy, -⟩ := exists_digits_four hyear
  obtain ⟨h₁, h₂, i₁, i₂, s₁, s₂, hclock, -⟩ := h.exists_clock
  have hlength : (t.written (.plain zero)).length = 24 := by
    simp [written, hw, hd, hm, hy, hclock]
  simp [fixedForm?, hlength]

theorem dashedForm?_plain (zero : Bool) : dashedForm? (t.written (.plain zero)) = none := by
  have hnone : ∀ rest, leadingWeekday? (t.weekdayChars.take 3 ++ ' ' :: rest) = none := by
    intro rest
    obtain ⟨hlow, hhigh⟩ := h.weekday_mem
    unfold weekdayChars
    interval_cases t.weekday <;> rfl
  unfold dashedForm?
  simp only [written, List.append_assoc, List.cons_append, hnone]
  rfl

end InCalendar

/-! ## Reading a date -/

theorem parse?_written {s : String} (h : t.InCalendar) (hyear : t.year ≤ form.lastYear)
    (hs : Text.trimChars s.toList = t.written form) : parse? s = some t := by
  have hvalid : t.IsValid := isValid_iff.mpr ⟨h, Nat.le_trans hyear form.lastYear_le⟩
  have hread : (fixedForm? (t.written form)).or
      ((dashedForm? (t.written form)).or (plainForm? (t.written form))) = some t := by
    cases form with
    | fixed => rw [h.fixedForm?_written (Nat.lt_succ_of_le hyear), Option.some_or]
    | dashed =>
      rw [h.fixedForm?_dashed, h.dashedForm?_written (Nat.lt_succ_of_le hyear), Option.none_or,
        Option.some_or]
    | plain zero =>
      have hyear : t.year < 10000 := Nat.lt_succ_of_le hyear
      rw [h.fixedForm?_plain zero hyear, h.dashedForm?_plain, h.plainForm?_written zero hyear,
        Option.none_or, Option.none_or]
  unfold parse?
  dsimp only
  rw [hs, hread]
  simp [hvalid]

example : written .fixed ⟨1994, 11, 6, 8, 49, 37, 7⟩ = "Sun, 06 Nov 1994 08:49:37 GMT".toList := by
  decide

example : written (.plain false) ⟨1994, 11, 6, 8, 49, 37, 7⟩ = "Sun Nov  6 08:49:37 1994".toList := by
  decide

/-! ## A date in a header -/

theorem visible_written (h : t.InCalendar) : ∀ c ∈ t.written form, Utf8.IsVisible c := by
  have hweekday : ∀ c ∈ t.weekdayChars, Utf8.IsVisible c := by
    obtain ⟨hlow, hhigh⟩ := h.weekday_mem
    unfold weekdayChars
    interval_cases t.weekday <;> decide
  have hmonth : ∀ c ∈ t.monthChars, Utf8.IsVisible c := by
    obtain ⟨hlow, hhigh⟩ := h.month
    unfold monthChars
    interval_cases t.month <;> decide
  have hdigits : ∀ width n, ∀ c ∈ digits width n, Utf8.IsVisible c :=
    fun width n c hc => Utf8.isVisible_of_isDigit (Text.isDigit_of_mem_padded c hc)
  have hshort : ∀ c ∈ t.weekdayChars.take 3, Utf8.IsVisible c :=
    fun c hc => hweekday c (List.mem_of_mem_take hc)
  have hclock : ∀ c ∈ t.clockChars, Utf8.IsVisible c := by
    simp only [clockChars, List.forall_mem_append, List.forall_mem_cons]
    exact ⟨⟨hdigits _ _, by decide, hdigits _ _⟩, by decide, hdigits _ _⟩
  have hday : ∀ zero, ∀ c ∈ plainDay zero t.day, Utf8.IsVisible c := by
    intro zero
    unfold plainDay
    split
    · exact List.forall_mem_cons.mpr ⟨by decide, hdigits _ _⟩
    · exact hdigits _ _
  cases form with
  | fixed =>
    simp only [written, List.append_assoc, List.forall_mem_append]
    exact ⟨hshort, by decide, hdigits _ _, by decide, hmonth, by decide, hdigits _ _, by decide,
      hclock, by decide⟩
  | dashed =>
    simp only [written, List.append_assoc, List.forall_mem_append]
    exact ⟨hweekday, by decide, hdigits _ _, by decide, hmonth, by decide, hdigits _ _, by decide,
      hclock, by decide⟩
  | plain zero =>
    simp only [written, List.append_assoc, List.forall_mem_append]
    exact ⟨hshort, by decide, hmonth, by decide, hday zero, by decide, hclock, by decide,
      hdigits _ _⟩

theorem head?_written (form : DateForm) (h : t.InCalendar) :
    ∃ c, (t.written form).head? = some c ∧ Text.isBlank c = false := by
  obtain ⟨c, rest, hname, hc⟩ : ∃ c rest, t.weekdayChars = c :: rest ∧ Text.isBlank c = false := by
    obtain ⟨hlow, hhigh⟩ := h.weekday_mem
    unfold weekdayChars
    interval_cases t.weekday <;> exact ⟨_, _, rfl, by decide⟩
  refine ⟨c, ?_, hc⟩
  cases form <;> simp [written, hname]

theorem getLast?_written (form : DateForm) (t : CalendarTime) :
    ∃ c, (t.written form).getLast? = some c ∧ Text.isBlank c = false := by
  cases form with
  | fixed => exact ⟨'T', by rw [written, List.getLast?_append]; rfl, by decide⟩
  | dashed =>
    exact ⟨'T', by rw [written, List.getLast?_append, List.getLast?_append]; rfl, by decide⟩
  | plain zero =>
    have hne : digits 4 t.year ≠ [] := fun hnil => by
      have hread : Text.digitsNumber? (digits 4 t.year) = some t.year := Text.digitsNumber?_padded _ _
      rw [hnil] at hread
      cases hread
    have hdigit := Text.isDigit_of_mem_padded _ (List.getLast_mem hne)
    refine ⟨_, ?_, Text.isBlank_of_isDigit hdigit⟩
    rw [written, List.getLast?_append, List.getLast?_eq_some_getLast hne, Option.some_or]

theorem trimChars_written (form : DateForm) (h : t.InCalendar) {before after : List Char}
    (hbefore : ∀ c ∈ before, Text.isBlank c = true) (hafter : ∀ c ∈ after, Text.isBlank c = true) :
    Text.trimChars (before ++ t.written form ++ after) = t.written form := by
  obtain ⟨first, hfirst, hfirst'⟩ := head?_written form h
  obtain ⟨last, hlast, hlast'⟩ := getLast?_written form t
  apply Text.trimChars_append hbefore hafter
  · intro hnil
    rw [hnil] at hfirst
    cases hfirst
  · intro c hc
    rw [hfirst] at hc
    cases hc
    exact hfirst'
  · intro c hc
    rw [hlast] at hc
    cases hc
    exact hlast'

/-- A date has a colon in it, so it is no number. -/
theorem colon_mem_written : ':' ∈ t.written form := by
  cases form <;> simp [written, clockChars]

end CalendarTime

end ServiceCall
