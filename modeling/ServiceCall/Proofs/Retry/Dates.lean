import ServiceCall.Proofs.Retry.Delays
import ServiceCall.Proofs.Time.WrittenDates

/-!
# Delays until a date

A server that is too busy may also name the second from which on it wants to be asked again, in any
form of a date. That is waiting for the time until then, which is what it would be to wait for a
number of seconds, but for the part of a second that a date cannot tell.
-/

namespace ServiceCall

open CalendarTime (ofSeconds)

variable {h h' : Http.Headers} {t : CalendarTime} {form : DateForm} {clock now : Duration} {n : Nat}

namespace Http.Headers

/-- The first value of the field is this date, with any blanks around it. -/
def AsksUntil (h : Headers) (form : DateForm) (t : CalendarTime) : Prop :=
  ∃ v before after, h.get? .retryAfter = some v ∧
    v.bytes = Bytes.ofString (String.ofList (before ++ t.written form ++ after)) ∧
    ∀ c ∈ before ++ after, c = ' ' ∨ c = '\t'

theorem AsksUntil.retryAfter? (hdate : h.AsksUntil form t) (ht : t.InCalendar)
    (hyear : t.year ≤ form.lastYear) (clock : Duration) :
    h.retryAfter? clock = some (t.delayFrom clock) := by
  obtain ⟨v, before, after, hget, hbytes, haround⟩ := hdate
  have hblank : ∀ c, c = ' ' ∨ c = '\t' → Text.isBlank c = true ∧ Utf8.IsVisible c := by
    rintro c (rfl | rfl) <;> decide
  have hbefore : ∀ c ∈ before, Text.isBlank c = true ∧ Utf8.IsVisible c :=
    fun c hc => hblank c (haround c (List.mem_append_left _ hc))
  have hafter : ∀ c ∈ after, Text.isBlank c = true ∧ Utf8.IsVisible c :=
    fun c hc => hblank c (haround c (List.mem_append_right _ hc))
  have htrim := CalendarTime.trimChars_written form ht (fun c hc => (hbefore c hc).1)
    fun c hc => (hafter c hc).1
  have htext : v.text? = some (String.ofList (before ++ t.written form ++ after)) := by
    rw [HeaderValue.text?, hbytes]
    apply Utf8.visibleText?_ofString
    simp only [List.forall_mem_append]
    exact ⟨⟨fun c hc => (hbefore c hc).2, CalendarTime.visible_written ht⟩,
      fun c hc => (hafter c hc).2⟩
  have hnumber : Text.numberBelow? 18446744073709551616 (t.written form) = none :=
    Text.numberBelow?_eq_none CalendarTime.colon_mem_written (by decide) (by decide)
  have hdate : CalendarTime.parse? (String.ofList (before ++ t.written form ++ after)) = some t :=
    CalendarTime.parse?_written ht hyear (by rw [String.toList_ofList, htrim])
  simp only [Headers.retryAfter?, hget, Option.bind_eq_bind, Option.bind_some, htext, retryDelay?,
    String.toList_ofList, htrim, hnumber, hdate, Option.map_some]

/-- The date by itself. -/
def ofDate (form : DateForm) (t : CalendarTime) : Headers :=
  ⟨[(.retryAfter, .ofVisible (String.ofList (t.written form)))]⟩

theorem asksUntil_ofDate (form : DateForm) (t : CalendarTime) : (ofDate form t).AsksUntil form t :=
  ⟨_, [], [], rfl, by simp [HeaderValue.ofVisible], by simp⟩

end Http.Headers

theorem Duration.nanos_ofSecs (h : n < 2 ^ 64) : (ofSecs n).nanos = n * 10 ^ 9 := by
  have hfits : n * nanosPerSecond ≤ maxNanos := by
    unfold nanosPerSecond maxNanos
    omega
  exact Nat.min_eq_left hfits

/-- The whole second into which a moment some seconds from now falls. -/
def wholeSecond (now : Duration) (n : Nat) : Nat := (now.nanos + n * 10 ^ 9) / 10 ^ 9

theorem CalendarTime.nanos_delayFrom (ht : t.toSeconds < 2 ^ 64) (now : Duration) :
    (t.delayFrom now).nanos = t.toSeconds * 10 ^ 9 - now.nanos := by
  rw [delayFrom, Duration.nanos_minus, Duration.nanos_ofSecs ht]

/-- The calendar ends long before the seconds that fit 64 bits do. -/
theorem wholeSecond_lt (hyear : (ofSeconds (wholeSecond now n)).year ≤ 9999) :
    wholeSecond now n < 2 ^ 64 := by
  have hlt := (CalendarTime.inCalendar_ofSeconds _).year_lt_iff.mp (Nat.lt_succ_of_le hyear)
  have hend : (CalendarTime.daysBeforeYear 10000 - CalendarTime.daysBeforeYear 1970) * 86400 <
      2 ^ 64 := by
    decide
  rw [CalendarTime.toSeconds_ofSeconds] at hlt
  exact Nat.lt_trans hlt hend

theorem le_wholeSecond (now : Duration) (n : Nat) : n ≤ wholeSecond now n := by
  unfold wholeSecond
  omega

/-- A server that names the second which is `n` seconds from now, in a form of a date that still
has its year, is obeyed until just then, and at once if the second has begun. That is no longer
than the `n` seconds that it could have asked for, and shorter by less than a second. -/
theorem date_agrees_with_seconds (now : Duration) (n : Nat) (form : DateForm)
    (hyear : (ofSeconds (wholeSecond now n)).year ≤ form.lastYear)
    (hdate : h.AsksUntil form (ofSeconds (wholeSecond now n))) (hseconds : h'.AsksFor n) :
    ∃ untilDate seconds, h.retryAfter? now = some untilDate ∧ h'.retryAfter? now = some seconds ∧
      (now.nanos ≤ wholeSecond now n * 10 ^ 9 →
        now.nanos + untilDate.nanos = wholeSecond now n * 10 ^ 9) ∧
      (wholeSecond now n * 10 ^ 9 < now.nanos → untilDate = .zero) ∧
      seconds.nanos = n * 10 ^ 9 ∧ untilDate ≤ seconds ∧
      seconds.nanos < untilDate.nanos + 10 ^ 9 := by
  have hlt := wholeSecond_lt (Nat.le_trans hyear form.lastYear_le)
  have hn : n < 2 ^ 64 := Nat.lt_of_le_of_lt (le_wholeSecond now n) hlt
  have hread := hdate.retryAfter? (CalendarTime.inCalendar_ofSeconds _) hyear now
  have hread' : h'.retryAfter? now = some (.ofSecs n) := by
    rw [hseconds.retryAfter?, if_pos hn]
  have huntil : ((ofSeconds (wholeSecond now n)).delayFrom now).nanos =
      wholeSecond now n * 10 ^ 9 - now.nanos := by
    rw [CalendarTime.nanos_delayFrom, CalendarTime.toSeconds_ofSeconds]
    rwa [CalendarTime.toSeconds_ofSeconds]
  have hfloor : wholeSecond now n * 10 ^ 9 ≤ now.nanos + n * 10 ^ 9 ∧
      now.nanos + n * 10 ^ 9 < wholeSecond now n * 10 ^ 9 + 10 ^ 9 := by
    unfold wholeSecond
    omega
  obtain ⟨hle, hlt⟩ := hfloor
  refine ⟨_, _, hread, hread', ?_, ?_, Duration.nanos_ofSecs hn, ?_, ?_⟩
  · rw [huntil]
    omega
  · intro hpast
    apply Duration.ext
    rw [huntil, Duration.nanos_zero]
    omega
  · rw [Duration.le_iff, huntil, Duration.nanos_ofSecs hn]
    omega
  · rw [huntil, Duration.nanos_ofSecs hn]
    omega

/-- Of a minute that ends in the middle of a second, the date of that second leaves 59.5 s. -/
theorem date_agrees_with_seconds_of_sunday :
    let sunday : CalendarTime := ⟨1994, 11, 6, 8, 49, 37, 7⟩
    let now : Duration := ⟨784111717500000000, by decide⟩
    let h := Http.Headers.ofDate .dashed sunday
    sunday.written .dashed = "Sunday, 06-Nov-94 08:49:37 GMT".toList ∧
      ofSeconds (wholeSecond now 60) = sunday ∧ sunday.year ≤ DateForm.dashed.lastYear ∧
      h.AsksUntil .dashed sunday ∧ (Http.Headers.ofSeconds 60).AsksFor 60 ∧
      ∃ d, h.retryAfter? now = some d ∧ d.nanos = 59500000000 := by
  intro sunday now h
  have hvalid : sunday.IsValid := by decide
  have hsecond : wholeSecond now 60 = sunday.toSeconds := by decide
  have hthen : ofSeconds (wholeSecond now 60) = sunday := by
    rw [hsecond, (CalendarTime.isValid_iff.mp hvalid).1.ofSeconds_toSeconds]
  have hyear : sunday.year ≤ DateForm.dashed.lastYear := by decide
  have hdate : h.AsksUntil .dashed sunday := Http.Headers.asksUntil_ofDate .dashed sunday
  have hseconds := Http.Headers.asksFor_ofSeconds 60
  obtain ⟨d, -, hd, -, hleft, -⟩ := date_agrees_with_seconds now 60 .dashed
    (by rw [hthen]; exact hyear) (by rw [hthen]; exact hdate) hseconds
  have hsum : 784111717500000000 + d.nanos = sunday.toSeconds * 10 ^ 9 :=
    hsecond ▸ hleft (by decide)
  have hsunday : sunday.toSeconds = 784111777 := by decide
  exact ⟨by decide, hthen, hyear, hdate, hseconds, d, hd, by omega⟩

end ServiceCall
