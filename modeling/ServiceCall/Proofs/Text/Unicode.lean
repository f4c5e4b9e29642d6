import ServiceCall.Text.Utf8
import Mathlib.Data.List.Basic

/-!
# Text that is written and read back

Every character is read back from the bytes it is written in, whatever stands behind them, so
every text is.
-/

namespace ServiceCall.Utf8

/-! ## Bytes -/

section

variable {k m m₁ m₂ m₃ : Nat}

theorem isTail_ofNat (h : m < 64) : isTail (UInt8.ofNat (0x80 + m)) = true := by
  unfold isTail
  simp [UInt8.le_iff_toNat_le]
  omega

theorem low_ofNat (h : m < 64) : low (UInt8.ofNat (0x80 + m)) = m := by
  unfold low
  simp
  omega

/-! ## One character -/

theorem front_one (h : k < 0x80) (rest : Bytes) :
    front (UInt8.ofNat k) rest = .char (Char.ofNat k) 0 := by
  have hread : (UInt8.ofNat k).toNat = k := by simp; omega
  unfold front
  rw [if_pos, hread]
  rwa [UInt8.lt_iff_toNat_lt, hread]

theorem front_two (hk : 2 ≤ k) (hk' : k < 32) (hm : m < 64) (rest : Bytes) :
    front (UInt8.ofNat (0xC0 + k)) (UInt8.ofNat (0x80 + m) :: rest) =
      .char (Char.ofNat (k * 64 + m)) 1 := by
  have hread : (UInt8.ofNat (0xC0 + k)).toNat % 32 = k := by simp; omega
  unfold front
  rw [if_neg, if_neg, if_pos]
  · simp only [isTail_ofNat hm, low_ofNat hm, if_true, hread]
  all_goals simp [UInt8.lt_iff_toNat_lt]; omega

theorem secondOfThree_ofNat (hk : k < 16) (hm : m < 64) (hlong : 0x20 ≤ k * 64 + m)
    (hvalid : k * 64 + m < 0x360 ∨ 0x380 ≤ k * 64 + m) :
    secondOfThree (UInt8.ofNat (0xE0 + k)) (UInt8.ofNat (0x80 + m)) = true := by
  unfold secondOfThree
  split
  · rename_i heq
    have hzero := congrArg UInt8.toNat heq
    simp [UInt8.le_iff_toNat_le] at hzero ⊢
    omega
  · split
    · rename_i heq
      have hsurrogate := congrArg UInt8.toNat heq
      simp [UInt8.le_iff_toNat_le] at hsurrogate ⊢
      omega
    · exact isTail_ofNat hm

theorem front_three (hk : k < 16) (hm₁ : m₁ < 64) (hm₂ : m₂ < 64) (hlong : 0x20 ≤ k * 64 + m₁)
    (hvalid : k * 64 + m₁ < 0x360 ∨ 0x380 ≤ k * 64 + m₁) (rest : Bytes) :
    front (UInt8.ofNat (0xE0 + k))
        (UInt8.ofNat (0x80 + m₁) :: UInt8.ofNat (0x80 + m₂) :: rest) =
      .char (Char.ofNat (k * 4096 + m₁ * 64 + m₂)) 2 := by
  have hread : (UInt8.ofNat (0xE0 + k)).toNat % 16 = k := by simp; omega
  unfold front
  rw [if_neg, if_neg, if_neg, if_pos]
  · simp only [secondOfThree_ofNat hk hm₁ hlong hvalid, isTail_ofNat hm₂, low_ofNat hm₁,
      low_ofNat hm₂, if_true, hread]
  all_goals simp [UInt8.lt_iff_toNat_lt]; omega

theorem secondOfFour_ofNat (hk : k < 8) (hm : m < 64) (hlong : 0x10 ≤ k * 64 + m)
    (hshort : k * 64 + m < 0x110) :
    secondOfFour (UInt8.ofNat (0xF0 + k)) (UInt8.ofNat (0x80 + m)) = true := by
  unfold secondOfFour
  split
  · rename_i heq
    have hzero := congrArg UInt8.toNat heq
    simp [UInt8.le_iff_toNat_le] at hzero ⊢
    omega
  · split
    · rename_i heq
      have hlast := congrArg UInt8.toNat heq
      simp [UInt8.le_iff_toNat_le] at hlast ⊢
      omega
    · exact isTail_ofNat hm

theorem front_four (hk : k < 8) (hm₁ : m₁ < 64) (hm₂ : m₂ < 64) (hm₃ : m₃ < 64)
    (hlong : 0x10 ≤ k * 64 + m₁) (hshort : k * 64 + m₁ < 0x110) (rest : Bytes) :
    front (UInt8.ofNat (0xF0 + k))
        (UInt8.ofNat (0x80 + m₁) :: UInt8.ofNat (0x80 + m₂) :: UInt8.ofNat (0x80 + m₃) :: rest) =
      .char (Char.ofNat (k * 262144 + m₁ * 4096 + m₂ * 64 + m₃)) 3 := by
  have hread : (UInt8.ofNat (0xF0 + k)).toNat % 8 = k := by simp; omega
  unfold front
  rw [if_neg, if_neg, if_neg, if_neg, if_pos]
  · simp only [secondOfFour_ofNat hk hm₁ hlong hshort, isTail_ofNat hm₂, isTail_ofNat hm₃,
      low_ofNat hm₁, low_ofNat hm₂, low_ofNat hm₃, if_true, hread]
  all_goals simp [UInt8.lt_iff_toNat_lt]; omega

end

variable {c : Char}

theorem toNat_valid (c : Char) : c.toNat < 0xD800 ∨ 0xDFFF < c.toNat ∧ c.toNat < 0x110000 :=
  c.valid

theorem toNat_toUInt8 (h : c.toNat < 0x80) : c.toUInt8.toNat = c.toNat := by
  have hread : c.toUInt8.toNat = c.toNat % 256 := UInt8.toNat_ofNat'
  omega

theorem encodeChar_of_ascii (h : c.toNat < 0x80) : encodeChar c = [c.toUInt8] := by
  unfold encodeChar
  exact if_pos h

theorem le_of_mem_encodeChar (h : ¬ c.toNat < 0x80) {b : UInt8} (hb : b ∈ encodeChar c) :
    0x80 ≤ b := by
  have hvalid := toNat_valid c
  unfold encodeChar at hb
  rw [if_neg h] at hb
  rw [UInt8.le_iff_toNat_le]
  split at hb
  · simp only [List.mem_cons, List.not_mem_nil, or_false] at hb
    rcases hb with rfl | rfl <;> simp <;> omega
  · split at hb
    · simp only [List.mem_cons, List.not_mem_nil, or_false] at hb
      rcases hb with rfl | rfl | rfl <;> simp <;> omega
    · simp only [List.mem_cons, List.not_mem_nil, or_false] at hb
      rcases hb with rfl | rfl | rfl | rfl <;> simp <;> omega

theorem front_encodeChar (c : Char) (rest : Bytes) :
    ∃ a more, encodeChar c = a :: more ∧ front a (more ++ rest) = .char c more.length := by
  have hvalid := toNat_valid c
  have hchar : ∀ n, n = c.toNat → Char.ofNat n = c := by
    rintro n rfl
    exact Char.ofNat_toNat c
  unfold encodeChar
  dsimp only
  split
  · refine ⟨_, [], rfl, ?_⟩
    rw [List.nil_append, front_one (by omega), hchar _ rfl]
    rfl
  · split
    · refine ⟨_, _, rfl, ?_⟩
      rw [List.cons_append, front_two (by omega) (by omega) (by omega), hchar _ (by omega)]
      rfl
    · split
      · refine ⟨_, _, rfl, ?_⟩
        rw [List.cons_append, List.cons_append, front_three (by omega) (by omega) (by omega)
          (by omega) (by omega), hchar _ (by omega)]
        rfl
      · refine ⟨_, _, rfl, ?_⟩
        rw [List.cons_append, List.cons_append, List.cons_append, front_four (by omega) (by omega)
          (by omega) (by omega) (by omega) (by omega), hchar _ (by omega)]
        rfl

/-! ## A whole text -/

@[simp] theorem encodeChars_nil : encodeChars [] = [] := rfl

@[simp] theorem encodeChars_cons (c : Char) (cs : List Char) :
    encodeChars (c :: cs) = encodeChar c ++ encodeChars cs :=
  List.flatMap_cons

@[simp] theorem encodeChars_append (cs cs' : List Char) :
    encodeChars (cs ++ cs') = encodeChars cs ++ encodeChars cs' :=
  List.flatMap_append

theorem ofString_append (s t : String) :
    Bytes.ofString (s ++ t) = Bytes.ofString s ++ Bytes.ofString t := by
  unfold Bytes.ofString encode
  rw [String.toList_append, encodeChars_append]

theorem encodeChars_of_ascii {cs : List Char} (h : ∀ c ∈ cs, c.toNat < 0x80) :
    encodeChars cs = cs.map Char.toUInt8 := by
  induction cs with
  | nil => rfl
  | cons c cs ih =>
    obtain ⟨hc, hcs⟩ := List.forall_mem_cons.mp h
    rw [encodeChars_cons, encodeChar_of_ascii hc, ih hcs]
    rfl

theorem decodeFrom_encodeChars (index : Nat) (cs : List Char) :
    decodeFrom index (encodeChars cs) = .ok cs := by
  induction cs generalizing index with
  | nil => rw [encodeChars_nil, decodeFrom]
  | cons c cs ih =>
    obtain ⟨a, more, hbytes, hfront⟩ := front_encodeChar c (encodeChars cs)
    rw [encodeChars_cons, hbytes, List.cons_append, decodeFrom]
    split
    · rename_i c' more' heq
      rw [hfront] at heq
      cases heq
      rw [List.drop_left, ih]
      rfl
    all_goals
      rename_i heq
      rw [hfront] at heq
      cases heq

theorem decode?_encodeChars (cs : List Char) :
    decode? (encodeChars cs) = some (String.ofList cs) := by
  unfold decode? decode
  rw [decodeFrom_encodeChars]
  rfl

theorem decodeLossyChars_encodeChars (cs : List Char) : decodeLossyChars (encodeChars cs) = cs := by
  induction cs with
  | nil => rw [encodeChars_nil, decodeLossyChars]
  | cons c cs ih =>
    obtain ⟨a, more, hbytes, hfront⟩ := front_encodeChar c (encodeChars cs)
    rw [encodeChars_cons, hbytes, List.cons_append, decodeLossyChars, hfront]
    dsimp only
    rw [List.drop_left, ih]

theorem decodeLossy_encode (s : String) : decodeLossy (encode s) = s := by
  unfold decodeLossy encode
  rw [decodeLossyChars_encodeChars, String.ofList_toList]

/-- A character of a header that is read as text: visible ASCII, a space or a tab. -/
def IsVisible (c : Char) : Prop := c.toNat < 0x80 ∧ isVisibleByte c.toUInt8 = true

instance (c : Char) : Decidable (IsVisible c) := inferInstanceAs (Decidable (_ ∧ _))

-- one character of the list after the other, not all characters there are
instance (cs : List Char) : Decidable (∀ c ∈ cs, IsVisible c) := List.decidableBAll IsVisible cs

theorem isVisible_of_isDigit (h : c.isDigit = true) : IsVisible c := by
  obtain ⟨hlow, hhigh⟩ : 48 ≤ c.toNat ∧ c.toNat ≤ 57 := Char.isDigit_iff_toNat.mp h
  have hbyte : c.toUInt8.toNat = c.toNat := toNat_toUInt8 (by omega)
  simp [IsVisible, isVisibleByte, UInt8.le_iff_toNat_le, UInt8.lt_iff_toNat_lt, hbyte]
  omega

/-- Text of visible characters is read back from a header. -/
theorem visibleText?_ofString {cs : List Char} (h : ∀ c ∈ cs, IsVisible c) :
    (Bytes.ofString (String.ofList cs)).visibleText? = some (String.ofList cs) := by
  have hbytes : Bytes.ofString (String.ofList cs) = cs.map Char.toUInt8 := by
    simpa [Bytes.ofString, encode] using encodeChars_of_ascii fun c hc => (h c hc).1
  have hback : (cs.map Char.toUInt8).map (fun b => Char.ofNat b.toNat) = cs := by
    rw [List.map_map]
    refine (List.map_congr_left fun c hc => ?_).trans (List.map_id cs)
    simp [toNat_toUInt8 (h c hc).1]
  unfold Bytes.visibleText?
  rw [hbytes, if_pos (by simpa using fun c hc => (h c hc).2), hback]

end ServiceCall.Utf8
