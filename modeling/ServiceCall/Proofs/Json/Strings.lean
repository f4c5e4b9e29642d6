import ServiceCall.Json.Printer
import ServiceCall.Proofs.Json.Cursors
import ServiceCall.Proofs.Text.Hexadecimal

/-!
# Strings in JSON

A string is written with three kinds of characters: those with an escape of one letter, other
control characters by their number, and the rest as they are. Each kind is read back by itself.
-/

namespace ServiceCall.Json

open Utf8 (encodeChar encodeChars)

namespace Cursor

variable {c : Cursor} {b : UInt8} {bs bytes more tail rest : Bytes} {n : Nat}

/-! ## Escapes -/

theorem escapedChar_cases (x : Char) :
    (∃ letter b, escapedChar x = ['\\', letter] ∧ letter.toNat < 0x80 ∧
        shortEscape? letter.toUInt8 = some b ∧ encodeChar x = [b]) ∨
      x.toNat < 0x20 ∧ escapedChar x = '\\' :: 'u' :: Text.hexDigits 4 x.toNat ∨
      0x20 ≤ x.toNat ∧ x ≠ '"' ∧ x ≠ '\\' ∧ escapedChar x = [x] := by
  unfold escapedChar
  split
  · exact Or.inl ⟨'"', 0x22, rfl, by decide, by decide, by subst x; rfl⟩
  split
  · exact Or.inl ⟨'\\', 0x5c, rfl, by decide, by decide, by subst x; rfl⟩
  split
  · exact Or.inl ⟨'b', 0x08, rfl, by decide, by decide, by subst x; rfl⟩
  split
  · exact Or.inl ⟨'f', 0x0c, rfl, by decide, by decide, by subst x; rfl⟩
  split
  · exact Or.inl ⟨'n', 0x0a, rfl, by decide, by decide, by subst x; rfl⟩
  split
  · exact Or.inl ⟨'r', 0x0d, rfl, by decide, by decide, by subst x; rfl⟩
  split
  · exact Or.inl ⟨'t', 0x09, rfl, by decide, by decide, by subst x; rfl⟩
  split
  · exact Or.inr (Or.inl ⟨by assumption, rfl⟩)
  · exact Or.inr (Or.inr ⟨by omega, by assumption, by assumption, rfl⟩)

theorem escaped_short (h : c.rest = b :: tail) {b' : UInt8} (hb : shortEscape? b = some b') :
    Gives c.escaped [b'] tail := by
  unfold escaped
  rw [peek?_of_rest h]
  simp only [hb]
  exact gives_ok (rest_skip h)

theorem hexDigitValue?_hexDigit :
    ∀ d < 16, hexDigitValue? (Text.hexDigit d).toUInt8 = some d := by decide

theorem hexDigit_lt : ∀ d < 16, (Text.hexDigit d).toNat < 0x80 := by decide

theorem codeUnit_of_rest (hn : n < 0x10000)
    (h : c.rest = encodeChars (Text.hexDigits 4 n) ++ tail) : Gives c.codeUnit n tail := by
  have hascii : ∀ x ∈ Text.hexDigits 4 n, x.toNat < 0x80 := by
    intro x hx
    obtain ⟨d, hd, rfl⟩ := (Text.isHexDigit_of_mem hx).exists_hexDigit
    exact hexDigit_lt d hd
  rw [Utf8.encodeChars_of_ascii hascii] at h
  have hrest : (c.skips 4).rest = tail := by
    have hskips := rest_skips h
    rwa [List.length_map, Text.length_hexDigits] at hskips
  unfold codeUnit
  rw [h]
  simp only [Text.hexDigits, List.nil_append, List.cons_append, List.map_cons,
    hexDigitValue?_hexDigit _ (Nat.mod_lt _ (Nat.succ_pos 15))]
  have hvalue : ((n / 16 / 16 / 16 % 16 * 16 + n / 16 / 16 % 16) * 16 + n / 16 % 16) * 16 +
      n % 16 = n := by omega
  rw [hvalue]
  exact gives_ok hrest

theorem escaped_number (hn : n < 0xD800)
    (h : c.rest = 'u'.toUInt8 :: (encodeChars (Text.hexDigits 4 n) ++ tail)) :
    Gives c.escaped (encodeChar (Char.ofNat n)) tail := by
  have hcode := codeUnit_of_rest (by omega) (rest_skip h)
  unfold escaped
  rw [peek?_of_rest h]
  have hletter : shortEscape? 'u'.toUInt8 = none := by decide
  simp only [hletter, if_true]
  unfold escapedCodePoint
  refine hcode.bind fun c' hc' => ?_
  dsimp only
  rw [if_neg (by simp; omega), if_pos (by simp; omega)]
  exact gives_ok hc'

/-! ## Texts -/

/-- In front of `tail`, a string goes on with `more` and ends in front of `rest`. -/
def Spells (tail more rest : Bytes) : Prop :=
  ∀ (fuel : Nat) (c : Cursor), c.rest = tail → tail.length < fuel →
    Gives (stringBytes fuel c) more rest

theorem spells_nil (rest : Bytes) : Spells ('"'.toUInt8 :: rest) [] rest := by
  intro fuel c hc hfuel
  obtain ⟨fuel, rfl⟩ := Nat.exists_eq_succ_of_ne_zero (Nat.ne_zero_of_lt hfuel)
  unfold stringBytes
  rw [peek?_of_rest hc]
  simp only [if_true]
  exact gives_ok (rest_skip hc)

/-- A byte that stands for itself. -/
def IsPlain (b : UInt8) : Prop := b ≠ '"'.toUInt8 ∧ b ≠ '\\'.toUInt8 ∧ ¬ b < 0x20

theorem Spells.plain (h : Spells tail more rest) (hb : IsPlain b) :
    Spells (b :: tail) (b :: more) rest := by
  intro fuel c hc hfuel
  obtain ⟨fuel, rfl⟩ := Nat.exists_eq_succ_of_ne_zero (Nat.ne_zero_of_lt hfuel)
  obtain ⟨hquote, hslash, hcontrol⟩ := hb
  unfold stringBytes
  rw [peek?_of_rest hc]
  simp only [if_neg hquote, if_neg hslash, if_neg hcontrol]
  exact (h fuel c.skip (rest_skip hc) (Nat.lt_of_succ_lt_succ hfuel)).map

theorem Spells.plains (h : Spells tail more rest) (hbs : ∀ b ∈ bs, IsPlain b) :
    Spells (bs ++ tail) (bs ++ more) rest := by
  induction bs with
  | nil => exact h
  | cons b bs ih =>
    obtain ⟨hb, hbs⟩ := List.forall_mem_cons.mp hbs
    exact (ih hbs).plain hb

theorem Spells.escape (h : Spells tail more rest) (bs : Bytes)
    (hbs : ∀ c : Cursor, c.rest = bs ++ tail → Gives c.escaped bytes tail) :
    Spells ('\\'.toUInt8 :: (bs ++ tail)) (bytes ++ more) rest := by
  intro fuel c hc hfuel
  obtain ⟨fuel, rfl⟩ := Nat.exists_eq_succ_of_ne_zero (Nat.ne_zero_of_lt hfuel)
  have hquote : '\\'.toUInt8 ≠ '"'.toUInt8 := by decide
  unfold stringBytes
  rw [peek?_of_rest hc]
  simp only [if_neg hquote, if_true]
  refine (hbs c.skip (rest_skip hc)).bind fun c' hc' => (h fuel c' hc' ?_).map
  simp only [List.length_cons, List.length_append] at hfuel
  omega

theorem isPlain_of_mem {x : Char} (hcontrol : 0x20 ≤ x.toNat) (hquote : x ≠ '"')
    (hslash : x ≠ '\\') (hb : b ∈ encodeChar x) : IsPlain b := by
  by_cases hascii : x.toNat < 0x80
  · rw [Utf8.encodeChar_of_ascii hascii, List.mem_singleton] at hb
    subst hb
    have hnat := Utf8.toNat_toUInt8 hascii
    have hne : ∀ y : Char, y.toNat < 0x80 → x ≠ y → x.toUInt8 ≠ y.toUInt8 := by
      intro y hy hxy heq
      have hsame := congrArg UInt8.toNat heq
      rw [hnat, Utf8.toNat_toUInt8 hy] at hsame
      exact hxy (Char.toNat_inj.mp hsame)
    refine ⟨hne _ (by decide) hquote, hne _ (by decide) hslash, ?_⟩
    rw [UInt8.lt_iff_toNat_lt, hnat]
    exact Nat.not_lt.mpr hcontrol
  · have hlarge := UInt8.le_iff_toNat_le.mp (Utf8.le_of_mem_encodeChar hascii hb)
    refine ⟨?_, ?_, ?_⟩
    · rintro rfl
      exact absurd hlarge (by decide)
    · rintro rfl
      exact absurd hlarge (by decide)
    · rw [UInt8.lt_iff_toNat_lt]
      exact Nat.not_lt.mpr (Nat.le_trans (by decide) hlarge)

theorem Spells.char (h : Spells tail more rest) (x : Char) :
    Spells (encodeChars (escapedChar x) ++ tail) (encodeChar x ++ more) rest := by
  rcases escapedChar_cases x with ⟨letter, b, hx, hletter, hshort, hb⟩ | ⟨hlow, hx⟩ |
    ⟨hcontrol, hquote, hslash, hx⟩
  · rw [hx, hb, Utf8.encodeChars_of_ascii (by simp [hletter])]
    exact h.escape [letter.toUInt8] fun c hc => escaped_short hc hshort
  · rw [hx]
    refine h.escape ('u'.toUInt8 :: encodeChars (Text.hexDigits 4 x.toNat)) fun c hc => ?_
    have hread := escaped_number (n := x.toNat) (by omega) hc
    rwa [Char.ofNat_toNat] at hread
  · rw [hx, Utf8.encodeChars_cons, Utf8.encodeChars_nil, List.append_nil]
    exact h.plains fun b hb => isPlain_of_mem hcontrol hquote hslash hb

theorem spells_text (cs : List Char) (rest : Bytes) :
    Spells (encodeChars (cs.flatMap escapedChar) ++ '"'.toUInt8 :: rest) (encodeChars cs) rest := by
  induction cs with
  | nil => exact spells_nil rest
  | cons x cs ih =>
    rw [List.flatMap_cons, Utf8.encodeChars_append, List.append_assoc, Utf8.encodeChars_cons]
    exact ih.char x

theorem string_of_rest {s : String} (h : c.rest =
    encodeChars (s.toList.flatMap escapedChar) ++ '"'.toUInt8 :: rest) :
    Gives c.string s rest := by
  have hread := spells_text s.toList rest (c.rest.length + 1) c h (by rw [h]; omega)
  unfold string
  refine hread.bind fun c' hc' => ?_
  dsimp only
  rw [Utf8.decode?_encodeChars, String.ofList_toList]
  exact gives_ok hc'

end Cursor

end ServiceCall.Json
