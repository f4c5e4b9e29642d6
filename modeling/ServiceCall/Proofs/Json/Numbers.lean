import ServiceCall.Proofs.Json.Cursors
import ServiceCall.Proofs.Text.Pieces

/-!
# Whole numbers in JSON

The digits of a number below the bound of a significand are all taken, so a whole number of 64
bits is read back exactly.
-/

namespace ServiceCall.Json

open Utf8 (encodeChars)

theorem Integer.ofInt?_value (i : Integer) : Integer.ofInt? i.value = some i := by
  unfold Integer.ofInt?
  exact dif_pos ⟨i.lower, i.upper⟩

theorem toString_ofNat (n : Nat) : (toString (n : Int)).toList = Nat.toDigits 10 n :=
  Nat.toList_repr

theorem toString_negSucc (n : Nat) :
    (toString (Int.negSucc n)).toList = '-' :: Nat.toDigits 10 (n + 1) := by
  have htext : toString (Int.negSucc n) = "-" ++ (n + 1).repr := rfl
  rw [htext, String.toList_append, Nat.toList_repr]
  rfl

namespace Cursor

/-- What may stand behind a value inside a list or an object, or behind the whole text. -/
def Delimited (rest : Bytes) : Prop :=
  ∀ b, rest.head? = some b → b = ','.toUInt8 ∨ b = ']'.toUInt8 ∨ b = '\x7d'.toUInt8

variable {c : Cursor} {rest : Bytes} {n : Nat}

/-! ## Digits -/

theorem ne_of_isDigit {b b' : UInt8} (hb : isDigit b = true) (hb' : isDigit b' = false) :
    b ≠ b' := by
  rintro rfl
  rw [hb] at hb'
  cases hb'

theorem isDigit_digitChar : ∀ d < 10, isDigit (Nat.digitChar d).toUInt8 = true := by decide

theorem digitValue_digitChar : ∀ d < 10, digitValue (Nat.digitChar d).toUInt8 = d := by decide

theorem toNat_digitChar : ∀ d < 10, (Nat.digitChar d).toNat < 0x80 := by decide

theorem encodeChars_toDigits (n : Nat) :
    encodeChars (Nat.toDigits 10 n) = (Nat.toDigits 10 n).map Char.toUInt8 := by
  apply Utf8.encodeChars_of_ascii
  intro c hc
  obtain ⟨d, hd, rfl⟩ := Text.exists_digitChar_of_mem (by omega) hc
  exact toNat_digitChar d hd

theorem isDigit_of_mem {b : UInt8} (hb : b ∈ encodeChars (Nat.toDigits 10 n)) :
    isDigit b = true := by
  rw [encodeChars_toDigits] at hb
  obtain ⟨c, hc, rfl⟩ := List.mem_map.mp hb
  obtain ⟨d, hd, rfl⟩ := Text.exists_digitChar_of_mem (by omega) hc
  exact isDigit_digitChar d hd

theorem exists_digit (n : Nat) : ∃ b tail,
    encodeChars (Nat.toDigits 10 n) = b :: tail ∧ isDigit b = true := by
  obtain ⟨x, more, hdigits⟩ := List.exists_cons_of_ne_nil (@Nat.toDigits_ne_nil n 10)
  have hbytes := encodeChars_toDigits n
  rw [hdigits, List.map_cons] at hbytes
  refine ⟨_, _, hdigits ▸ hbytes, isDigit_of_mem (n := n) ?_⟩
  rw [hdigits, hbytes]
  exact List.mem_cons_self ..

/-- The number that digits spell, written behind the digits of `s`. -/
def numeral (s : Nat) (ds : List Nat) : Nat := ds.foldl (fun m d => m * 10 + d) s

theorem numeral_toDigits (n : Nat) :
    numeral 0 ((encodeChars (Nat.toDigits 10 n)).map digitValue) = n := by
  unfold numeral
  rw [encodeChars_toDigits, List.foldl_map, List.foldl_map]
  refine Text.foldl_toDigits id (by omega) (fun m d hd => ?_) n
  rw [digitValue_digitChar d hd]
  rfl

theorem le_numeral (s : Nat) (ds : List Nat) : s ≤ numeral s ds := by
  induction ds generalizing s with
  | nil => exact Nat.le_refl s
  | cons d ds ih =>
    have hle : s * 10 + d ≤ numeral s (d :: ds) := ih (s * 10 + d)
    omega

theorem append_of_lt {bound s : Nat} {ds : List Nat} (h : numeral s ds < bound) :
    append bound s ds = (numeral s ds, ds.length) := by
  induction ds generalizing s with
  | nil => rfl
  | cons d ds ih =>
    have hrest : numeral (s * 10 + d) ds < bound := h
    have hnext := Nat.lt_of_le_of_lt (le_numeral (s * 10 + d) ds) hrest
    unfold append
    simp only [if_pos hnext, ih hrest]
    rfl

theorem lt_significandBound (h : n ≤ 18446744073709551615) : n < significandBound := by
  have hbound : significandBound = 18446744073709551616 := by decide
  omega

theorem digits_of_rest {bs : Bytes} (h : c.rest = bs ++ rest) (hbs : ∀ b ∈ bs, isDigit b = true)
    (hrest : ∀ b, rest.head? = some b → isDigit b = false) :
    ∃ c', c.digits = (bs.map digitValue, c') ∧ c'.rest = rest := by
  have hnone : rest.takeWhile isDigit = [] ∧ rest.dropWhile isDigit = rest := by
    cases rest with
    | nil => exact ⟨rfl, rfl⟩
    | cons b rest =>
      have hb := hrest b rfl
      simp [hb]
  refine ⟨c.skipWhile isDigit, ?_, ?_⟩
  · unfold digits
    rw [h, List.takeWhile_append_of_pos hbs, hnone.1, List.append_nil]
  · rw [rest_skipWhile, h, List.dropWhile_append_of_pos hbs, hnone.2]

/-! ## Numbers -/

theorem Delimited.peek? (h : Delimited rest) (hc : c.rest = rest) {p : UInt8 → Bool}
    (hcomma : p ','.toUInt8 = false) (hbracket : p ']'.toUInt8 = false)
    (hbrace : p '\x7d'.toUInt8 = false) : c.peek?.any p = false := by
  unfold Cursor.peek?
  rw [hc]
  cases hhead : rest.head? with
  | none => rfl
  | some b => rcases h b hhead with rfl | rfl | rfl <;> assumption

theorem numberTail_of_rest (hrest : Delimited rest) (hc : c.rest = rest) {i : Integer}
    {positive : Bool} (hi : i.value = if positive then (n : Int) else -n)
    (hzero : positive = true ∨ n ≠ 0) : Gives (c.numberTail positive n 0) (.integer i) rest := by
  have hpoint : c.peek? ≠ some '.'.toUInt8 := by
    intro heq
    have hnot := hrest.peek? hc (p := (· = '.'.toUInt8)) (by decide) (by decide) (by decide)
    rw [heq] at hnot
    cases hnot
  have hmark := hrest.peek? hc (p := isExponentMark) (by decide) (by decide) (by decide)
  unfold numberTail
  rw [if_neg hpoint, hmark, if_neg (by simp), if_neg (by simp)]
  dsimp only
  rw [← hi, Integer.ofInt?_value]
  dsimp only
  rw [if_pos (by simpa using hzero)]
  exact gives_ok hc

theorem number_of_rest (hn : n < significandBound)
    (h : c.rest = encodeChars (Nat.toDigits 10 n) ++ rest) (hrest : Delimited rest)
    (positive : Bool) :
    ∃ c' : Cursor, c.number positive = c'.numberTail positive n 0 ∧ c'.rest = rest := by
  obtain ⟨first, more, hdigits⟩ := List.exists_cons_of_ne_nil (@Nat.toDigits_ne_nil n 10)
  obtain ⟨d, hd, rfl⟩ := Text.exists_digitChar_of_mem (by omega)
    (hdigits ▸ List.mem_cons_self .. : first ∈ Nat.toDigits 10 n)
  have hhead : c.rest = (Nat.digitChar d).toUInt8 :: (encodeChars more ++ rest) := by
    rw [h, hdigits, Utf8.encodeChars_cons, Utf8.encodeChar_of_ascii (toNat_digitChar d hd)]
    rfl
  unfold number
  rw [peek?_of_rest hhead]
  dsimp only
  by_cases hzero : d = 0
  · subst hzero
    -- No digit follows a leading zero.
    obtain rfl := Text.nil_of_toDigits_zero hdigits
    have hn : n = 0 := by
      have hread := Text.digitsNumber?_toDigits n
      rw [hdigits] at hread
      exact (Option.some.inj hread).symm
    have hskip := rest_skip hhead
    have hnodigit := hrest.peek? hskip (p := isDigit) (by decide) (by decide) (by decide)
    rw [if_pos (by decide), hnodigit, if_neg (by decide), hn]
    exact ⟨c.skip, rfl, hskip⟩
  · have hne : ∀ d < 10, d ≠ 0 → (Nat.digitChar d).toUInt8 ≠ '0'.toUInt8 := by decide
    obtain ⟨c', hread, hc'⟩ := digits_of_rest h (fun b hb => isDigit_of_mem hb)
      fun b hb => by rcases hrest b hb with rfl | rfl | rfl <;> decide
    rw [if_neg (hne d hd hzero), if_pos (isDigit_digitChar d hd), hread]
    dsimp only
    rw [append_of_lt (by rwa [numeral_toDigits]), numeral_toDigits, Nat.sub_self]
    exact ⟨c', rfl, hc'⟩

end Cursor

end ServiceCall.Json
