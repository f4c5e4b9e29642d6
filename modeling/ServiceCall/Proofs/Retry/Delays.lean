import ServiceCall.Retry.Cooldown
import ServiceCall.Proofs.Text.Pieces
import ServiceCall.Proofs.Text.Unicode
import Mathlib.Algebra.Group.Nat.Defs
import Mathlib.Data.Option.Basic

/-!
# Delays in seconds

A server that is too busy may ask for a number of seconds, in decimal digits. A number that fits
64 bits is obeyed, up to a day. A larger one is read neither as a number nor as a date, so the
window is the one of a server that asks for nothing, and it can be shorter than the window of a
smaller number.
-/

namespace ServiceCall

variable {cs : List Char} {h h' : Http.Headers} {m n : Nat}

/-! ## Digits are no date -/

namespace CalendarTime

theorem fixedForm?_of_isDigit (hcs : ∀ c ∈ cs, c.isDigit = true) : fixedForm? cs = none := by
  have hspace : cs[16]? ≠ some ' ' :=
    fun heq => absurd (hcs ' ' (List.mem_of_getElem? heq)) (by decide)
  simp [fixedForm?, hspace]

theorem leadingWeekday?_of_isDigit (hcs : ∀ c ∈ cs, c.isDigit = true) :
    leadingWeekday? cs = none := by
  unfold leadingWeekday?
  rw [List.findSome?_eq_none_iff]
  rintro ⟨name, i⟩ -
  have hcomma : ¬ (name.toList ++ [',', ' ']).isPrefixOf cs = true := by
    intro hprefix
    have hmem := (List.isPrefixOf_iff_prefix.mp hprefix).subset (by simp : ',' ∈ _)
    exact absurd (hcs ',' hmem) (by decide)
  simp [hcomma]

theorem dashedForm?_of_isDigit (hcs : ∀ c ∈ cs, c.isDigit = true) : dashedForm? cs = none := by
  simp [dashedForm?, leadingWeekday?_of_isDigit hcs]

theorem plainForm?_of_isDigit (hcs : ∀ c ∈ cs, c.isDigit = true) : plainForm? cs = none := by
  have hspace : cs[10]? ≠ some ' ' :=
    fun heq => absurd (hcs ' ' (List.mem_of_getElem? heq)) (by decide)
  simp [plainForm?, hspace]

/-- Each form has a character in it that is no digit. -/
theorem parse?_of_isDigit {s : String} (hs : ∀ c ∈ Text.trimChars s.toList, c.isDigit = true) :
    parse? s = none := by
  simp [parse?, fixedForm?_of_isDigit hs, dashedForm?_of_isDigit hs, plainForm?_of_isDigit hs]

end CalendarTime

/-! ## Asking for seconds -/

/-- The number in decimal digits, with any zeros in front of it and any blanks around it. -/
def Text.IsNumeral (cs : List Char) (n : Nat) : Prop :=
  ∃ before digits after, cs = before ++ digits ++ after ∧
    (∀ c ∈ before ++ after, c = ' ' ∨ c = '\t') ∧ digits ≠ [] ∧
    (∀ c ∈ digits, c.isDigit = true) ∧ Nat.ofDigitChars 10 digits 0 = n

/-- The only value of the field is this number. -/
def Http.Headers.AsksFor (h : Http.Headers) (n : Nat) : Prop :=
  ∃ v cs, h.getAll .retryAfter = [v] ∧ v.bytes = Bytes.ofString (String.ofList cs) ∧
    Text.IsNumeral cs n

namespace Text

theorem IsNumeral.trimChars (hcs : IsNumeral cs n) :
    trimChars cs ≠ [] ∧ (∀ c ∈ trimChars cs, c.isDigit = true) ∧
      Nat.ofDigitChars 10 (trimChars cs) 0 = n := by
  obtain ⟨before, digits, after, rfl, hblanks, hne, hdigits, hn⟩ := hcs
  have hblank : ∀ c ∈ before ++ after, isBlank c = true := by
    intro c hc
    rcases hblanks c hc with rfl | rfl <;> decide
  rw [trimChars_append (fun c hc => hblank c (by simp [hc])) (fun c hc => hblank c (by simp [hc]))
    hne (fun c hc => isBlank_of_isDigit (hdigits c (List.mem_of_head? hc)))
    (fun c hc => isBlank_of_isDigit (hdigits c (List.mem_of_getLast? hc)))]
  exact ⟨hne, hdigits, hn⟩

theorem IsNumeral.visible (hcs : IsNumeral cs n) : ∀ c ∈ cs, Utf8.IsVisible c := by
  obtain ⟨before, digits, after, rfl, hblanks, -, hdigits, -⟩ := hcs
  intro c hc
  have hmem : c ∈ before ++ after ∨ c ∈ digits := by
    simp only [List.mem_append] at hc ⊢
    tauto
  rcases hmem with hc | hc
  · rcases hblanks c hc with rfl | rfl <;> decide
  · exact Utf8.isVisible_of_isDigit (hdigits c hc)

end Text

theorem Http.Headers.AsksFor.retryAfter? (hn : h.AsksFor n) (clock : Duration) :
    h.retryAfter? clock = if n < 2 ^ 64 then some (.ofSecs n) else none := by
  obtain ⟨v, cs, hget, hbytes, hcs⟩ := hn
  obtain ⟨hne, hdigits, hvalue⟩ := hcs.trimChars
  have htext : v.text? = some (String.ofList cs) := by
    rw [HeaderValue.text?, hbytes]
    exact Utf8.visibleText?_ofString hcs.visible
  have hnumber := Text.numberBelow?_of_isDigit (2 ^ 64) hne hdigits
  have hdate : CalendarTime.parse? (String.ofList cs) = none :=
    CalendarTime.parse?_of_isDigit (by simpa using hdigits)
  rw [hvalue] at hnumber
  have hbound : 18446744073709551616 = 2 ^ 64 := by decide
  simp only [Headers.retryAfter?, get?, hget, List.head?_cons, Option.bind_eq_bind,
    Option.bind_some, htext, retryDelay?, String.toList_ofList, hbound, hnumber, hdate,
    Option.map_none]
  by_cases hlt : n < 2 ^ 64
  · rw [if_pos hlt, if_pos hlt]
  · rw [if_neg hlt, if_neg hlt]

/-- The number as it is commonly written. -/
def Http.Headers.ofSeconds (n : Nat) : Http.Headers := ⟨[(.retryAfter, .ofVisible (toString n))]⟩

theorem Http.Headers.asksFor_ofSeconds (n : Nat) : (ofSeconds n).AsksFor n :=
  ⟨_, _, rfl, rfl, [], Nat.toDigits 10 n, [], by simp, by simp, Nat.toDigits_ne_nil,
    Text.isDigit_of_mem_toDigits, by simp⟩

namespace Cooldown

/-! ## The window -/

theorem nanos_min_maxWindow (d : Duration) :
    (min d maxWindow).nanos = min d.nanos (86400 * 10 ^ 9) :=
  Duration.nanos_min d maxWindow

theorem nanos_min_ofSecs (n : Nat) :
    (min (.ofSecs n) maxWindow).nanos = min (n * 10 ^ 9) (86400 * 10 ^ 9) := by
  -- The longest span is far above the cap, so what it cuts off does not matter.
  have hspan : (Duration.ofSecs n).nanos = min (n * 10 ^ 9) Duration.maxNanos := rfl
  rw [nanos_min_maxWindow, hspan, Nat.min_assoc]
  rfl

theorem nanos_windowFor (c : Cooldown) (hn : h.AsksFor n) (clock : Duration) :
    (c.windowFor h clock).nanos =
      min (if n < 2 ^ 64 then n * 10 ^ 9 else c.window.nanos) (86400 * 10 ^ 9) := by
  unfold windowFor
  rw [hn.retryAfter?]
  split
  · exact nanos_min_ofSecs n
  · exact nanos_min_maxWindow c.window

theorem windowFor_eq_iff (c : Cooldown) (hn : h.AsksFor n) (clock : Duration) :
    c.windowFor h clock = min (.ofSecs n) maxWindow ↔ n < 2 ^ 64 ∨ maxWindow ≤ c.window := by
  have hle : maxWindow ≤ c.window ↔ 86400 * 10 ^ 9 ≤ c.window.nanos := Iff.rfl
  rw [Duration.ext_iff, nanos_windowFor c hn, nanos_min_ofSecs, hle]
  split <;> omega

/-- A 429 that asks for `n` seconds is obeyed for just so long, and for a day if that is less,
exactly if `n` has at most 64 bits or the window of the client lasts a day. Otherwise the window of
the client takes the place of the seconds, and only so can asking for more give less. -/
theorem window_of_seconds (c : Cooldown) (hn : h.AsksFor n) (now : Instant) (clock : Duration) :
    (c.windowFor h clock).nanos =
        min (if n < 2 ^ 64 then n * 10 ^ 9 else c.window.nanos) (86400 * 10 ^ 9) ∧
      (∀ t, ((c.observe h now clock).remaining? t).isSome = true ↔
        t < now.after (c.windowFor h clock)) ∧
      (c.windowFor h clock = min (.ofSecs n) maxWindow ↔ n < 2 ^ 64 ∨ maxWindow ≤ c.window) ∧
      ∀ {h' m}, Http.Headers.AsksFor h' m → n ≤ m → ∀ clock',
        (c.windowFor h' clock' < c.windowFor h clock ↔
          n < 2 ^ 64 ∧ 2 ^ 64 ≤ m ∧ c.window < min (.ofSecs n) maxWindow) := by
  refine ⟨nanos_windowFor c hn clock, ?_, windowFor_eq_iff c hn clock, ?_⟩
  · intro t
    simp [observe, remaining?]
  · intro h' m hm hle clock'
    have hlt : ∀ a b : Duration, a < b ↔ a.nanos < b.nanos := fun _ _ => Iff.rfl
    rw [hlt, hlt, nanos_windowFor c hm, nanos_windowFor c hn, nanos_min_ofSecs]
    split <;> split <;> omega

/-- The number 60, written at length. -/
def sixty : Http.Headers := ⟨[(.retryAfter, .ofVisible " 0060\t")]⟩

theorem asksFor_sixty : sixty.AsksFor 60 :=
  ⟨_, _, rfl, rfl, [' '], ['0', '0', '6', '0'], ['\t'], rfl, by simp, by simp, by simp, rfl⟩

theorem window_of_seconds_of_sixty :
    sixty.AsksFor 60 ∧ (Http.Headers.ofSeconds (2 ^ 64)).AsksFor (2 ^ 64) ∧
      ((ofWindow standardWindow).windowFor sixty .zero).nanos = 60 * 10 ^ 9 ∧
      (ofWindow standardWindow).windowFor (.ofSeconds (2 ^ 64)) .zero <
        (ofWindow standardWindow).windowFor sixty .zero := by
  have hlarger := Http.Headers.asksFor_ofSeconds (2 ^ 64)
  obtain ⟨hnanos, -, -, hshorter⟩ :=
    window_of_seconds (ofWindow standardWindow) asksFor_sixty ⟨0⟩ .zero
  exact ⟨asksFor_sixty, hlarger, hnanos, (hshorter hlarger (by decide) .zero).mpr (by decide)⟩

/-- So many seconds are not obeyed for a day, but for ten seconds. -/
theorem oversized_is_not_capped :
    (Http.Headers.ofSeconds (2 ^ 64)).AsksFor (2 ^ 64) ∧
      (ofWindow standardWindow).windowFor (.ofSeconds (2 ^ 64)) .zero ≠
        min (.ofSecs (2 ^ 64)) maxWindow ∧
      ((ofWindow standardWindow).windowFor (.ofSeconds (2 ^ 64)) .zero).nanos = 10 * 10 ^ 9 := by
  have hasks := Http.Headers.asksFor_ofSeconds (2 ^ 64)
  refine ⟨hasks, ?_, nanos_windowFor _ hasks _⟩
  rw [Ne, windowFor_eq_iff _ hasks]
  decide

end Cooldown

end ServiceCall
