import ServiceCall.Text.Blank
import Mathlib.Algebra.Ring.Nat
import Mathlib.Data.List.Induction

/-!
# Hexadecimal digits of a fixed width

A number below `16 ^ width` and its `width` lowercase digits determine each other.
-/

namespace ServiceCall.Text

/-- The sixteen lowercase digits. -/
def IsHexDigit (c : Char) : Prop := c ∈ "0123456789abcdef".toList

theorem hexValue?_hexDigit : ∀ d < 16, hexValue? (hexDigit d) = some d := by decide

theorem isHexDigit_hexDigit : ∀ d < 16, IsHexDigit (hexDigit d) := by
  unfold IsHexDigit
  decide

theorem IsHexDigit.exists_hexDigit {c : Char} (h : IsHexDigit c) :
    ∃ d < 16, hexDigit d = c := by
  have hdigits : "0123456789abcdef".toList = (List.range 16).map hexDigit := by decide
  rw [IsHexDigit, hdigits] at h
  obtain ⟨d, hd, rfl⟩ := List.mem_map.mp h
  exact ⟨d, List.mem_range.mp hd, rfl⟩

@[simp] theorem length_hexDigits (width n : Nat) : (hexDigits width n).length = width := by
  induction width generalizing n with
  | zero => rfl
  | succ width ih => simp [hexDigits, ih]

theorem isHexDigit_of_mem {width n : Nat} {c : Char} (h : c ∈ hexDigits width n) :
    IsHexDigit c := by
  induction width generalizing n with
  | zero => simp [hexDigits] at h
  | succ width ih =>
    simp only [hexDigits, List.mem_append, List.mem_singleton] at h
    rcases h with h | rfl
    · exact ih h
    · exact isHexDigit_hexDigit _ (Nat.mod_lt _ (by omega))

theorem hexNumber?_concat {cs : List Char} {n d : Nat} (h : hexNumber? cs = some n)
    (hd : d < 16) : hexNumber? (cs ++ [hexDigit d]) = some (n * 16 + d) := by
  unfold hexNumber? at h ⊢
  rw [List.foldl_append, h]
  simp [hexValue?_hexDigit d hd]

theorem hexNumber?_hexDigits {width n : Nat} (h : n < 16 ^ width) :
    hexNumber? (hexDigits width n) = some n := by
  induction width generalizing n with
  | zero =>
    obtain rfl : n = 0 := by simpa using h
    rfl
  | succ width ih =>
    have hquotient : n / 16 < 16 ^ width := by rw [Nat.pow_succ] at h; omega
    rw [hexDigits, hexNumber?_concat (ih hquotient) (Nat.mod_lt _ (by omega))]
    congr
    omega

theorem exists_hexNumber {cs : List Char} (h : ∀ c ∈ cs, IsHexDigit c) :
    ∃ n < 16 ^ cs.length, hexNumber? cs = some n ∧ hexDigits cs.length n = cs := by
  induction cs using List.reverseRecOn with
  | nil => exact ⟨0, by simp, rfl, rfl⟩
  | append_singleton cs c ih =>
    simp only [List.mem_append, List.mem_singleton] at h
    obtain ⟨n, hn, hnumber, hdigits⟩ := ih fun c hc => h c (Or.inl hc)
    obtain ⟨d, hd, rfl⟩ := (h c (Or.inr rfl)).exists_hexDigit
    refine ⟨n * 16 + d, ?_, hexNumber?_concat hnumber hd, ?_⟩
    · rw [List.length_append, List.length_singleton, Nat.pow_succ]
      omega
    · have hquotient : (n * 16 + d) / 16 = n := by omega
      have hremainder : (n * 16 + d) % 16 = d := by omega
      rw [List.length_append, List.length_singleton, hexDigits, hquotient, hremainder, hdigits]

theorem hexDigits_zero (width : Nat) : hexDigits width 0 = List.replicate width '0' := by
  induction width with
  | zero => rfl
  | succ width ih =>
    rw [hexDigits, Nat.zero_div, ih, List.replicate_succ']
    rfl

theorem pos_iff_exists_digit {width n : Nat} (h : n < 16 ^ width) :
    0 < n ↔ ∃ c ∈ hexDigits width n, c ≠ '0' := by
  constructor
  · intro hpos
    by_contra hzeros
    have hall : hexDigits width n = hexDigits width 0 := by
      rw [hexDigits_zero, List.eq_replicate_iff]
      simpa using hzeros
    have hnumber := hexNumber?_hexDigits h
    rw [hall, hexNumber?_hexDigits (Nat.zero_lt_of_lt h), Option.some.injEq] at hnumber
    omega
  · rintro ⟨c, hc, hne⟩
    rcases Nat.eq_zero_or_pos n with rfl | hpos
    · rw [hexDigits_zero] at hc
      exact absurd (List.eq_of_mem_replicate hc) hne
    · exact hpos

end ServiceCall.Text
