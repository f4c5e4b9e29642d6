import ServiceCall.Trace.Context
import ServiceCall.Proofs.Text.Hexadecimal
import ServiceCall.Proofs.Text.Pieces

/-!
# The written form of a trace context

Reading accepts the written forms of contexts and nothing else, but for blanks around them. So a
context and its written form determine each other.
-/

namespace ServiceCall

open Text

theorem TraceId.ofNat?_eq_some_iff {bits n : Nat} {id : TraceId bits} :
    TraceId.ofNat? bits n = some id ↔ n = id.value := by
  unfold TraceId.ofNat?
  constructor
  · intro h
    split at h
    · cases h
      rfl
    · simp at h
  · rintro rfl
    simp [id.pos, id.lt]

namespace TraceContext

/-! ## The format -/

/-- So many lowercase hexadecimal digits. -/
def IsField (width : Nat) (cs : List Char) : Prop :=
  cs.length = width ∧ ∀ c ∈ cs, c ∈ "0123456789abcdef".toList

/-- An identifier that is not all zeros. -/
def IsIdField (width : Nat) (cs : List Char) : Prop := IsField width cs ∧ ∃ c ∈ cs, c ≠ '0'

def IsWritten (cs : List Char) : Prop :=
  ∃ trace span flags, cs = "00-".toList ++ trace ++ "-".toList ++ span ++ "-".toList ++ flags ∧
    IsIdField 32 trace ∧ IsIdField 16 span ∧ IsField 2 flags

/-! ## One field -/

theorem isLowerHex_iff (c : Char) : isLowerHex c = true ↔ IsHexDigit c := by
  constructor
  · intro h
    simp only [isLowerHex, Bool.or_eq_true, Bool.and_eq_true, decide_eq_true_eq] at h
    rcases h with ⟨hlow, hhigh⟩ | ⟨hlow, hhigh⟩
    · have hlow : 48 ≤ c.toNat := hlow
      have hhigh : c.toNat ≤ 57 := hhigh
      have hdigit : hexDigit (c.toNat - 48) = c := by
        unfold hexDigit
        rw [if_pos (by omega), Nat.add_sub_cancel' hlow, Char.ofNat_toNat]
      exact hdigit ▸ isHexDigit_hexDigit _ (by omega)
    · have hlow : 97 ≤ c.toNat := hlow
      have hhigh : c.toNat ≤ 102 := hhigh
      have hdigit : hexDigit (c.toNat - 87) = c := by
        have hsum : 0x61 + (c.toNat - 87 - 10) = c.toNat := by omega
        unfold hexDigit
        rw [if_neg (by omega), hsum, Char.ofNat_toNat]
      exact hdigit ▸ isHexDigit_hexDigit _ (by omega)
  · intro h
    have hall : ∀ d < 16, isLowerHex (hexDigit d) = true := by decide
    obtain ⟨d, hd, rfl⟩ := h.exists_hexDigit
    exact hall d hd

theorem isField_hexDigits (width n : Nat) : IsField width (hexDigits width n) :=
  ⟨length_hexDigits width n, fun _ => isHexDigit_of_mem⟩

theorem field?_eq_some_iff {width n : Nat} {cs : List Char} :
    field? width cs = some n ↔ n < 16 ^ width ∧ cs = hexDigits width n := by
  unfold field?
  constructor
  · intro h
    split at h
    · rename_i hfield
      simp only [Bool.and_eq_true, decide_eq_true_eq, List.all_eq_true, isLowerHex_iff] at hfield
      obtain ⟨rfl, hdigits⟩ := hfield
      obtain ⟨m, hm, hnumber, heq⟩ := exists_hexNumber hdigits
      rw [hnumber] at h
      cases h
      exact ⟨hm, heq.symm⟩
    · simp at h
  · rintro ⟨hn, rfl⟩
    have hall : (hexDigits width n).all isLowerHex = true := by
      simp only [List.all_eq_true, isLowerHex_iff]
      exact fun _ => isHexDigit_of_mem
    rw [length_hexDigits, hall, hexNumber?_hexDigits hn]
    simp

/-! ## Whole texts -/

section

variable (t : TraceContext)

theorem splitChars_chars : splitChars '-' t.chars =
    [['0', '0'], hexDigits 32 t.trace.value, hexDigits 16 t.span.value, hexDigits 2 t.flags] := by
  have hno : ∀ width n, '-' ∉ hexDigits width n := by
    intro width n h
    simpa [IsHexDigit] using isHexDigit_of_mem h
  have hchars : t.chars = ['0', '0'] ++ '-' :: (hexDigits 32 t.trace.value ++
      '-' :: (hexDigits 16 t.span.value ++ '-' :: hexDigits 2 t.flags)) := by
    simp [chars]
  rw [hchars, splitChars_append_cons (by decide), splitChars_append_cons (hno _ _),
    splitChars_append_cons (hno _ _), splitChars_of_not_mem (hno _ _)]

theorem trimChars_chars : trimChars t.chars = t.chars := by
  have hblank : ∀ c, IsHexDigit c → isBlank c = false := by
    intro c h
    have hall : ∀ d < 16, isBlank (hexDigit d) = false := by decide
    obtain ⟨d, hd, rfl⟩ := h.exists_hexDigit
    exact hall d hd
  have hfirst : t.chars.dropWhile isBlank = t.chars := by
    simp [chars, isBlank]
  have hlast : t.chars = (['0', '0', '-'] ++ hexDigits 32 t.trace.value ++
      '-' :: hexDigits 16 t.span.value ++ '-' :: hexDigits 1 (t.flags / 16)) ++
      hexDigit (t.flags % 16) :: [] := by
    simp [chars, hexDigits]
  have hdigit := hblank _ (isHexDigit_hexDigit _ (Nat.mod_lt t.flags (by omega)))
  unfold trimChars
  rw [hfirst, hlast, dropTrailing_append_cons hdigit]
  rfl

end

theorem parse?_iff_fields (s : String) (t : TraceContext) :
    parse? s = some t ↔ ∃ trace span flags,
      splitChars '-' (trimChars s.toList) = [['0', '0'], trace, span, flags] ∧
      field? 32 trace = some t.trace.value ∧ field? 16 span = some t.span.value ∧
      field? 2 flags = some t.flags := by
  unfold parse?
  constructor
  · intro h
    split at h
    · rename_i trace span flags hpieces
      obtain ⟨n, hn, h⟩ := Option.bind_eq_some_iff.mp h
      obtain ⟨traceId, htrace, h⟩ := Option.bind_eq_some_iff.mp h
      obtain ⟨m, hm, h⟩ := Option.bind_eq_some_iff.mp h
      obtain ⟨spanId, hspan, h⟩ := Option.bind_eq_some_iff.mp h
      obtain ⟨f, hf, h⟩ := Option.bind_eq_some_iff.mp h
      rw [TraceId.ofNat?_eq_some_iff] at htrace hspan
      split at h
      · cases h
        exact ⟨trace, span, flags, hpieces, htrace ▸ hn, hspan ▸ hm, hf⟩
      · simp at h
    · simp at h
  · rintro ⟨trace, span, flags, hpieces, htrace, hspan, hflags⟩
    rw [hpieces]
    simp [htrace, hspan, hflags, TraceId.ofNat?_eq_some_iff.mpr rfl, t.flags_lt]

theorem parse?_eq_some_iff (s : String) (t : TraceContext) :
    parse? s = some t ↔ trimChars s.toList = t.chars := by
  rw [parse?_iff_fields]
  constructor
  · rintro ⟨trace, span, flags, hpieces, htrace, hspan, hflags⟩
    rw [field?_eq_some_iff] at htrace hspan hflags
    rw [← intercalate_splitChars '-' (trimChars s.toList), hpieces, htrace.2, hspan.2, hflags.2]
    simp [chars, List.intercalate]
  · intro h
    rw [h, splitChars_chars]
    refine ⟨_, _, _, rfl, ?_, ?_, ?_⟩ <;> rw [field?_eq_some_iff]
    · exact ⟨t.trace.lt, rfl⟩
    · exact ⟨t.span.lt, rfl⟩
    · exact ⟨t.flags_lt, rfl⟩

theorem parse?_text (t : TraceContext) : parse? t.text = some t := by
  rw [parse?_eq_some_iff, text, String.toList_ofList, trimChars_chars]

theorem isIdField_iff {width : Nat} {cs : List Char} :
    IsIdField width cs ↔ ∃ n, 0 < n ∧ n < 16 ^ width ∧ cs = hexDigits width n := by
  constructor
  · rintro ⟨⟨rfl, hdigits⟩, hne⟩
    obtain ⟨n, hn, -, heq⟩ := exists_hexNumber hdigits
    refine ⟨n, ?_, hn, heq.symm⟩
    rw [pos_iff_exists_digit hn, heq]
    exact hne
  · rintro ⟨n, hpos, hn, rfl⟩
    exact ⟨isField_hexDigits width n, (pos_iff_exists_digit hn).mp hpos⟩

theorem isWritten_iff (cs : List Char) : IsWritten cs ↔ ∃ t : TraceContext, cs = t.chars := by
  unfold IsWritten
  simp only [isIdField_iff]
  constructor
  · intro h
    obtain ⟨trace, span, flags, hcs, ⟨n, hn, hnlt, htrace⟩, ⟨m, hm, hmlt, hspan⟩, hwidth,
      hdigits⟩ := h
    obtain ⟨f, hf, -, hflags⟩ := exists_hexNumber hdigits
    rw [hwidth] at hf hflags
    refine ⟨⟨⟨n, hn, hnlt⟩, ⟨m, hm, hmlt⟩, f, hf⟩, ?_⟩
    simp [hcs, chars, hflags, htrace, hspan]
  · rintro ⟨t, rfl⟩
    refine ⟨hexDigits 32 t.trace.value, hexDigits 16 t.span.value, hexDigits 2 t.flags, ?_,
      ⟨_, t.trace.pos, t.trace.lt, rfl⟩, ⟨_, t.span.pos, t.span.lt, rfl⟩,
      isField_hexDigits 2 t.flags⟩
    simp [chars]

/-- A text is read exactly if it has the format between blanks, and what is read is the context
whose written form it is; every context, drawn or read, is read back from its written form. -/
theorem parse_iff_written :
    (∀ s, (parse? s).isSome = true ↔ IsWritten (trimChars s.toList)) ∧
      (∀ s t, parse? s = some t ↔ t.text = trim s) ∧
      ∀ t : TraceContext, parse? t.text = some t := by
  refine ⟨?_, ?_, parse?_text⟩
  · intro s
    rw [Option.isSome_iff_exists, isWritten_iff]
    simp only [parse?_eq_some_iff]
  · intro s t
    rw [parse?_eq_some_iff, text, trim, String.ofList_inj, eq_comm]

end TraceContext

end ServiceCall
