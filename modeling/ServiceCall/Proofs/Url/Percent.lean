import ServiceCall.Proofs.Text.Pieces
import ServiceCall.Proofs.Text.Unicode
import ServiceCall.Url.Percent

/-!
# Percent and form encoding that is read

What has been encoded for a component is not encoded once more. Of a query in the form encoding,
the pairs that were added to it are read behind those that it had.
-/

namespace ServiceCall.Url

/-! ## Percent encoding -/

/-- What holds for the code points of ASCII holds for its characters. -/
theorem of_ascii {p : Char → Bool} (hall : ∀ n < 0x80, p (Char.ofNat n) = true) {c : Char}
    (hc : c.toNat < 0x80) : p c = true := by
  have hp := hall c.toNat hc
  rwa [Char.ofNat_toNat] at hp

/-- A character that is found in an encoded text. -/
structure IsEncoded (set : Char → Bool) (c : Char) : Prop where
  ascii : c.toNat < 0x80
  outside : set c = false

section

variable {set : Char → Bool} {cs : List Char} {c : Char}

theorem encode_of_encoded (h : ∀ c ∈ cs, IsEncoded set c) : encode set cs = cs := by
  have hchar : ∀ c ∈ cs, encodeChar set c = [c] := by
    intro c hc
    unfold encodeChar
    rw [(h c hc).outside, decide_eq_true (h c hc).ascii]
    rfl
  unfold encode
  rw [List.flatMap_congr hchar]
  exact List.flatMap_singleton' cs

theorem ascii_upperHexDigit : ∀ n < 16, (Text.upperHexDigit n).toNat < 0x80 := by decide

theorem mem_percentByte {b : UInt8} (h : c ∈ percentByte b) :
    c = '%' ∨ ∃ n < 16, c = Text.upperHexDigit n := by
  have hb := b.toNat_lt
  simp only [percentByte, List.mem_cons, List.not_mem_nil, or_false] at h
  rcases h with rfl | rfl | rfl
  · exact Or.inl rfl
  · exact Or.inr ⟨_, by omega, rfl⟩
  · exact Or.inr ⟨_, by omega, rfl⟩

theorem mem_encode (hc : c ∈ encode set cs) :
    c ∈ cs ∧ IsEncoded set c ∨ c = '%' ∨ ∃ n < 16, c = Text.upperHexDigit n := by
  obtain ⟨d, hd, hc⟩ := List.mem_flatMap.mp hc
  unfold encodeChar at hc
  split at hc
  · rename_i hkept
    obtain ⟨hascii, houtside⟩ := Bool.and_eq_true_iff.mp hkept
    rw [List.mem_singleton.mp hc]
    exact Or.inl ⟨hd, of_decide_eq_true hascii, by simpa using houtside⟩
  · obtain ⟨b, -, hc⟩ := List.mem_flatMap.mp hc
    exact Or.inr (mem_percentByte hc)

/-- A set that leaves the percent sign and the digits behind it alone is for encoding once. -/
theorem isEncoded_of_mem_encode (hpercent : set '%' = false)
    (hdigits : ∀ n < 16, set (Text.upperHexDigit n) = false) (hc : c ∈ encode set cs) :
    IsEncoded set c := by
  rcases mem_encode hc with ⟨-, hencoded⟩ | rfl | ⟨n, hn, rfl⟩
  · exact hencoded
  · exact ⟨by decide, hpercent⟩
  · exact ⟨ascii_upperHexDigit n hn, hdigits n hn⟩

theorem IsEncoded.ne (h : IsEncoded set c) {d : Char} (hd : set d = true) : c ≠ d := by
  rintro rfl
  rw [h.outside] at hd
  cases hd

/-- The sets of all components have the controls and the space in them. -/
theorem IsEncoded.visible (h : IsEncoded set c) (hcontrols : ∀ c, isControl c = true → set c = true)
    (hspace : set ' ' = true) : 0x20 < c.toNat := by
  have hcontrol : isControl c = false := by
    by_contra hcontrol
    have hin := hcontrols c (by simpa using hcontrol)
    rw [h.outside] at hin
    cases hin
  simp only [isControl, Bool.or_eq_false_iff, decide_eq_false_iff_not] at hcontrol
  have hne : c.toNat ≠ ' '.toNat := fun heq => h.ne hspace (Char.toNat_inj.mp heq)
  have hnat : ' '.toNat = 0x20 := rfl
  omega

end

/-! ## Percent decoding -/

theorem decode_cons {b : UInt8} (h : b ≠ 0x25) (rest : Bytes) :
    decode (b :: rest) = b :: decode rest := by
  cases rest with
  | nil => rfl
  | cons hi rest =>
    cases rest with
    | nil => rfl
    | cons lo rest => rw [decode, if_neg h]

theorem hexByte?_upperHexDigit (b : UInt8) :
    hexByte? (Text.upperHexDigit (b.toNat / 16)).toUInt8
      (Text.upperHexDigit (b.toNat % 16)).toUInt8 = some b := by
  have hdigit : ∀ n < 16,
      Text.hexValue? (Char.ofNat (Text.upperHexDigit n).toUInt8.toNat) = some n := by decide
  have hb := b.toNat_lt
  have hsum : b.toNat / 16 * 16 + b.toNat % 16 = b.toNat := Nat.div_add_mod' ..
  unfold hexByte?
  rw [hdigit _ (by omega), hdigit _ (by omega)]
  exact congrArg some ((congrArg UInt8.ofNat hsum).trans UInt8.ofNat_toNat)

theorem decode_percentByte (b : UInt8) (rest : Bytes) :
    decode (Utf8.encodeChars (percentByte b) ++ rest) = b :: decode rest := by
  have hascii : ∀ c ∈ percentByte b, c.toNat < 0x80 := by
    intro c hc
    rcases mem_percentByte hc with rfl | ⟨n, hn, rfl⟩
    · decide
    · exact ascii_upperHexDigit n hn
  rw [Utf8.encodeChars_of_ascii hascii]
  change decode (0x25 :: (Text.upperHexDigit (b.toNat / 16)).toUInt8 ::
    (Text.upperHexDigit (b.toNat % 16)).toUInt8 :: rest) = _
  rw [decode, if_pos rfl, hexByte?_upperHexDigit]

/-! ## Forms -/

/-- Plus signs stand for spaces. -/
def spaced (bytes : Bytes) : Bytes := bytes.map fun b => if b = 0x2B then 0x20 else b

/-- The text that a name or a value in the form encoding stands for. -/
def readFormText (cs : List Char) : String :=
  Utf8.decodeLossy (decode (spaced (Utf8.encodeChars cs)))

/-- A name and a value, which the first equals sign divides. -/
def readFormPair (cs : List Char) : String × String :=
  (readFormText (cs.takeWhile (· ≠ '=')), readFormText ((cs.dropWhile (· ≠ '=')).drop 1))

/-- The pairs of a query in the form encoding. Nothing between two ampersands is no pair. -/
def readForm (query : List Char) : List (String × String) :=
  ((Text.splitChars '&' query).filter (!·.isEmpty)).map readFormPair

/-! ## Texts in the form encoding -/

/-- A character that texts in the form encoding are written in. -/
def IsFormChar (c : Char) : Prop :=
  c.toNat < 0x80 ∧ (c.isAlphanum = true ∨ c ∈ "*-._%+".toList)

theorem isFormByte_small : ∀ n < 256, isFormByte (UInt8.ofNat n) = true →
    n < 0x80 ∧ n ≠ 0x25 ∧ n ≠ 0x2B := by decide +kernel

/-- A query of an address has such characters as they are. -/
theorem isEncoded_of_formChar {c : Char} (h : IsFormChar c) : IsEncoded inSpecialQuerySet c := by
  let isFormChar (c : Char) : Bool := c.isAlphanum || "*-._%+".toList.contains c
  have hp : (!isFormChar c || !inSpecialQuerySet c) = true :=
    of_ascii (p := fun c => !isFormChar c || !inSpecialQuerySet c) (by decide +kernel) h.1
  have hform : isFormChar c = true := by simpa [isFormChar] using h.2
  rw [hform, Bool.not_true, Bool.false_or] at hp
  exact ⟨h.1, by simpa using hp⟩

theorem isFormChar_upperHexDigit : ∀ n < 16, IsFormChar (Text.upperHexDigit n) := by
  unfold IsFormChar
  decide

theorem isFormChar_of_mem_percentByte {b : UInt8} {c : Char} (hc : c ∈ percentByte b) :
    IsFormChar c := by
  rcases mem_percentByte hc with rfl | ⟨n, hn, rfl⟩
  · exact ⟨by decide, Or.inr (by decide)⟩
  · exact isFormChar_upperHexDigit n hn

section

variable {b : UInt8}

theorem formByte_cases (b : UInt8) :
    (b.toNat < 0x80 ∧ b ≠ 0x25 ∧ b ≠ 0x2B ∧ IsFormChar (Char.ofNat b.toNat) ∧
        formByte b = [Char.ofNat b.toNat]) ∨
      b = 0x20 ∧ formByte b = ['+'] ∨ formByte b = percentByte b := by
  unfold formByte
  split
  · rename_i hform
    obtain ⟨hlt, hpercent, hplus⟩ :=
      isFormByte_small b.toNat b.toNat_lt (by rwa [UInt8.ofNat_toNat])
    have hascii : ∀ n < 0x80, (Char.ofNat n).toNat < 0x80 := by decide
    have hchar : IsFormChar (Char.ofNat b.toNat) := by
      simp only [isFormByte, Bool.or_eq_true, List.contains_iff_mem] at hform
      exact ⟨hascii _ hlt, hform.imp_right fun hmem => List.mem_append_left ['%', '+'] hmem⟩
    refine Or.inl ⟨hlt, ?_, ?_, hchar, rfl⟩
    · rintro rfl
      exact hpercent rfl
    · rintro rfl
      exact hplus rfl
  · split
    · exact Or.inr (Or.inl ⟨‹_›, rfl⟩)
    · exact Or.inr (Or.inr rfl)

theorem isFormChar_of_mem_formByte {c : Char} (hc : c ∈ formByte b) : IsFormChar c := by
  rcases formByte_cases b with ⟨-, -, -, hchar, hbyte⟩ | ⟨-, hbyte⟩ | hbyte
  · rw [hbyte] at hc
    rwa [List.mem_singleton.mp hc]
  · rw [hbyte] at hc
    rw [List.mem_singleton.mp hc]
    exact ⟨by decide, Or.inr (by decide)⟩
  · rw [hbyte] at hc
    exact isFormChar_of_mem_percentByte hc

theorem spaced_append (xs ys : Bytes) : spaced (xs ++ ys) = spaced xs ++ spaced ys :=
  List.map_append

theorem spaced_of_not_mem {bytes : Bytes} (h : 0x2B ∉ bytes) : spaced bytes = bytes := by
  refine (List.map_congr_left fun b hb => if_neg ?_).trans (List.map_id' bytes)
  rintro rfl
  exact h hb

theorem not_mem_encodeChars_percentByte (b : UInt8) :
    0x2B ∉ Utf8.encodeChars (percentByte b) := by
  have hdigit : ∀ n < 16, (Text.upperHexDigit n).toUInt8 ≠ 0x2B := by decide
  rw [Utf8.encodeChars_of_ascii fun c hc => (isFormChar_of_mem_percentByte hc).1]
  intro hmem
  obtain ⟨c, hc, hplus⟩ := List.mem_map.mp hmem
  rcases mem_percentByte hc with rfl | ⟨n, hn, rfl⟩
  · cases hplus
  · exact hdigit n hn hplus

/-- A byte is read as what was written for it. -/
theorem decode_formByte (b : UInt8) (rest : Bytes) :
    decode (spaced (Utf8.encodeChars (formByte b)) ++ rest) = b :: decode rest := by
  rcases formByte_cases b with ⟨hlt, hpercent, hplus, hchar, hbyte⟩ | ⟨rfl, hbyte⟩ | hbyte
  · have hsame : Utf8.encodeChars (formByte b) = [b] := by
      have hread : ∀ n < 0x80, (Char.ofNat n).toUInt8 = UInt8.ofNat n := by decide
      rw [hbyte, Utf8.encodeChars_of_ascii (by simpa using hchar.1), List.map_singleton,
        hread _ hlt, UInt8.ofNat_toNat]
    have hkept : spaced [b] = [b] := spaced_of_not_mem (by simpa using Ne.symm hplus)
    rw [hsame, hkept]
    exact decode_cons hpercent rest
  · rw [hbyte]
    exact decode_cons (by decide) rest
  · rw [hbyte, spaced_of_not_mem (not_mem_encodeChars_percentByte b)]
    exact decode_percentByte b rest

end

theorem decode_formBytes (bytes : Bytes) :
    decode (spaced (Utf8.encodeChars (bytes.flatMap formByte))) = bytes := by
  induction bytes with
  | nil => rfl
  | cons b bytes ih =>
    rw [List.flatMap_cons, Utf8.encodeChars_append, spaced_append, decode_formByte, ih]

theorem readFormText_formText (s : String) : readFormText (formText s) = s := by
  unfold readFormText formText
  rw [decode_formBytes, Utf8.decodeLossy_encode]

theorem isFormChar_of_mem_formText {s : String} {c : Char} (hc : c ∈ formText s) :
    IsFormChar c := by
  obtain ⟨b, -, hc⟩ := List.mem_flatMap.mp hc
  exact isFormChar_of_mem_formByte hc

/-! ## Pairs -/

theorem readFormPair_formPair (pair : String × String) : readFormPair (formPair pair) = pair := by
  have hname : ∀ c ∈ formText pair.1, decide (c ≠ '=') = true := by
    intro c hc
    refine decide_eq_true ?_
    rintro rfl
    exact absurd (isFormChar_of_mem_formText hc).2 (by decide)
  unfold readFormPair formPair
  rw [List.takeWhile_append_of_pos hname, List.dropWhile_append_of_pos hname,
    List.takeWhile_cons_of_neg (by simp), List.dropWhile_cons_of_neg (by simp), List.append_nil,
    List.drop_one, List.tail_cons, readFormText_formText, readFormText_formText]

theorem isFormChar_of_mem_formPair {pair : String × String} {c : Char} (hc : c ∈ formPair pair) :
    IsFormChar c ∨ c = '=' := by
  rcases List.mem_append.mp hc with hc | hc
  · exact Or.inl (isFormChar_of_mem_formText hc)
  · rcases List.mem_cons.mp hc with rfl | hc
    · exact Or.inr rfl
    · exact Or.inl (isFormChar_of_mem_formText hc)

theorem readForm_formPair (pair : String × String) : readForm (formPair pair) = [pair] := by
  have hno : '&' ∉ formPair pair := by
    intro hmem
    rcases isFormChar_of_mem_formPair hmem with hform | heq
    · exact absurd hform.2 (by decide)
    · cases heq
  have hne : formPair pair ≠ [] := by simp [formPair]
  unfold readForm
  rw [Text.splitChars_of_not_mem hno, List.filter_cons_of_pos (by simpa using hne),
    List.filter_nil, List.map_singleton, readFormPair_formPair]

theorem readForm_append (query more : List Char) :
    readForm (query ++ '&' :: more) = readForm query ++ readForm more := by
  unfold readForm
  rw [Text.splitChars_append, List.filter_append, List.map_append]

/-- The pairs that are added to a query are read behind those that it had. -/
theorem readForm_appendPairs (query : List Char) (pairs : List (String × String)) :
    readForm (appendPairs query pairs) = readForm query ++ pairs := by
  induction pairs generalizing query with
  | nil => exact (List.append_nil _).symm
  | cons pair pairs ih =>
    have hone : readForm ((if query.isEmpty then [] else query ++ ['&']) ++ formPair pair) =
        readForm query ++ [pair] := by
      cases query with
      | nil => exact readForm_formPair pair
      | cons c query =>
        rw [if_neg (by simp), List.append_assoc, List.singleton_append, readForm_append,
          readForm_formPair]
    have hstep : appendPairs query (pair :: pairs) =
        appendPairs ((if query.isEmpty then [] else query ++ ['&']) ++ formPair pair) pairs := rfl
    rw [hstep, ih, hone, List.append_assoc, List.singleton_append]

/-- What is added to a query is written in few characters. -/
theorem mem_appendPairs {query : List Char} {pairs : List (String × String)} {c : Char}
    (hc : c ∈ appendPairs query pairs) : c ∈ query ∨ IsFormChar c ∨ c = '=' ∨ c = '&' := by
  induction pairs generalizing query with
  | nil => exact Or.inl hc
  | cons pair pairs ih =>
    rcases ih hc with hmem | hform
    · rcases List.mem_append.mp hmem with hmem | hmem
      · split at hmem
        · cases hmem
        · rcases List.mem_append.mp hmem with hmem | hmem
          · exact Or.inl hmem
          · exact Or.inr (Or.inr (Or.inr (List.mem_singleton.mp hmem)))
      · rcases isFormChar_of_mem_formPair hmem with hform | heq
        · exact Or.inr (Or.inl hform)
        · exact Or.inr (Or.inr (Or.inl heq))
    · exact Or.inr hform

end ServiceCall.Url
