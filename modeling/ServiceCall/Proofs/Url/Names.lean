import ServiceCall.Proofs.Results
import ServiceCall.Proofs.Text.Letters
import ServiceCall.Proofs.Text.Pieces
import ServiceCall.Proofs.Text.Unicode
import ServiceCall.Url.Domain
import Mathlib.Data.Bool.AllAny

/-!
# Names in their ASCII form

The ASCII form of a name has no capital letter and no character that no domain may have. So it
stands for itself: read as a name once more it is what it was, or it is refused.
-/

namespace ServiceCall

namespace Url

/-! ## Characters -/

/-- If it is in ASCII, it is no capital letter. -/
def IsSmall (c : Char) : Prop := c.toNat < 0x80 → c.toLower = c

theorem isSmall_of_foreign {c : Char} (h : 0x80 ≤ c.toNat) : IsSmall c :=
  fun hlt => absurd h (Nat.not_le.mpr hlt)

theorem isSmall_ofNat {n : Nat} (hn : 0x80 ≤ n) : IsSmall (Char.ofNat n) := by
  by_cases h : n.isValidChar
  · have hc : Char.ofNat n = Char.ofNatAux n h := dif_pos h
    rw [hc]
    exact isSmall_of_foreign hn
  · have hc : Char.ofNat n = '\x00' := dif_neg h
    rw [hc]
    exact fun _ => rfl

theorem isSmall_ite {p : Prop} [Decidable p] {a b : Char} (ha : IsSmall a) (hb : IsSmall b) :
    IsSmall (if p then a else b) := by
  split
  · exact ha
  · exact hb

theorem isSmall_lowerLetter (c : Char) : IsSmall (lowerLetter c) := by
  unfold lowerLetter
  dsimp only
  by_cases hc : c.toNat < 0x80
  · rw [if_pos hc]
    exact fun _ => Text.toLower_toLower c
  · rw [if_neg hc]
    have hforeign : 0x80 ≤ c.toNat := Nat.not_lt.mp hc
    have hkept : IsSmall c := isSmall_of_foreign hforeign
    have hshifted (offset : Nat) : IsSmall (shifted offset c) :=
      isSmall_ofNat (Nat.le_add_right_of_le hforeign)
    -- One alphabet after the other.
    refine isSmall_ite (hshifted _) <| isSmall_ite (isSmall_of_foreign (by decide)) <|
      isSmall_ite (isSmall_ite (hshifted _) hkept) <|
      isSmall_ite (isSmall_ite (hshifted _) hkept) <|
      isSmall_ite (isSmall_of_foreign (by decide)) <| isSmall_ite (hshifted _) <|
      isSmall_ite (isSmall_of_foreign (by decide)) <| isSmall_ite (hshifted _) <|
      isSmall_ite (hshifted _) <| isSmall_ite (hshifted _) <| isSmall_ite (hshifted _) hkept

theorem isSmall_of_mem_mapped {c d : Char} (hd : d ∈ mappedInDomain c) : IsSmall d := by
  unfold mappedInDomain at hd
  dsimp only at hd
  split at hd
  · cases hd
  · split at hd
    · rw [List.mem_singleton.mp hd]
      exact fun _ => rfl
    · split at hd
      · rw [List.mem_singleton.mp hd]
        exact fun _ => Text.toLower_toLower _
      · rw [List.mem_singleton.mp hd]
        exact isSmall_lowerLetter c

/-- A character that stands for itself in a name. -/
structure IsNameChar (c : Char) : Prop where
  ascii : c.toNat < 0x80
  lower : c.toLower = c
  allowed : isForbiddenInDomain c = false

namespace IsNameChar

variable {c : Char}

theorem ne (h : IsNameChar c) {d : Char} (hd : isForbiddenInDomain d = true) : c ≠ d := by
  rintro rfl
  rw [h.allowed] at hd
  cases hd

theorem mappedInDomain_eq (h : IsNameChar c) : mappedInDomain c = [c] := by
  have hlt := h.ascii
  have hignored : isIgnoredInDomain c = false := by
    unfold isIgnoredInDomain
    simp only [Bool.or_eq_false_iff, Bool.and_eq_false_iff, decide_eq_false_iff_not]
    omega
  have hdot : (decide (c.toNat = 0x3002) || decide (c.toNat = 0xFF61)) = false := by
    simp only [Bool.or_eq_false_iff, decide_eq_false_iff_not]
    omega
  have hwide : (decide (0xFF01 ≤ c.toNat) && decide (c.toNat ≤ 0xFF5E)) = false := by
    simp only [Bool.and_eq_false_iff, decide_eq_false_iff_not]
    omega
  unfold mappedInDomain
  simp only [hignored, hdot, hwide, lowerLetter, if_pos hlt, h.lower]
  rfl

theorem not_refused (h : IsNameChar c) : isRefusedInDomain c = false := by
  have hlt := h.ascii
  have hforeign : decide (0x80 ≤ c.toNat) = false := by
    simp only [decide_eq_false_iff_not]
    omega
  rw [isRefusedInDomain, h.allowed, hforeign]
  rfl

end IsNameChar

theorem isNameChar_of_not_refused {c d : Char} (hd : d ∈ mappedInDomain c) (hlt : d.toNat < 0x80)
    (hrefused : isRefusedInDomain d = false) : IsNameChar d where
  ascii := hlt
  lower := isSmall_of_mem_mapped hd hlt
  allowed := (Bool.or_eq_false_iff.mp hrefused).1

/-! ## Punycode -/

namespace Punycode

theorem threshold_le (k bias : Nat) : threshold k bias ≤ 26 := by
  unfold threshold
  split
  · omega
  · split <;> omega

theorem isNameChar_digit {n : Nat} (hn : n < 36) : IsNameChar (digit n) := by
  have hall : ∀ n < 36, (digit n).toNat < 0x80 ∧ (digit n).toLower = digit n ∧
      isForbiddenInDomain (digit n) = false := by decide
  obtain ⟨hascii, hlower, hallowed⟩ := hall n hn
  exact ⟨hascii, hlower, hallowed⟩

theorem isNameChar_of_mem_number {bias q k : Nat} {c : Char} (hc : c ∈ number bias q k) :
    IsNameChar c := by
  fun_induction number bias q k with
  | case1 q k t hlt =>
    have hle := threshold_le k bias
    rw [List.mem_singleton.mp hc]
    exact isNameChar_digit (by omega)
  | case2 q k t hge ih =>
    have hle := threshold_le k bias
    rcases List.mem_cons.mp hc with rfl | hc
    · have hmod : (q - t) % (base - t) < base - t := Nat.mod_lt _ (by unfold base; omega)
      refine isNameChar_digit ?_
      unfold base at *
      omega
    · exact ih hc

/-- What has been written so far consists of ASCII characters of the label, digits and hyphens. -/
def Writer.Spells (w : Writer) (label : List Char) : Prop :=
  ∀ c ∈ w.out, c ∈ label ∧ c.toNat < 0x80 ∨ IsNameChar c

theorem Writer.Spells.visit {w : Writer} {label : List Char} (h : w.Spells label)
    (basic n m : Nat) : (Punycode.visit basic n w m).Spells label := by
  unfold Punycode.visit
  split
  · exact h
  · split
    · intro c hc
      rcases List.mem_append.mp hc with hc | hc
      · exact h c hc
      · exact Or.inr (isNameChar_of_mem_number hc)
    · exact h

theorem isNameChar_of_mem_encode {label : List Char} {c : Char} (hc : c ∈ encode label) :
    c ∈ label ∧ c.toNat < 0x80 ∨ IsNameChar c := by
  unfold encode at hc
  refine List.foldlRecOn (motive := fun s : Writer × Nat => s.1.Spells label) _ _ ?_ ?_ c hc
  · intro c hc
    dsimp only at hc
    split at hc
    · cases hc
    · rcases List.mem_append.mp hc with hc | hc
      · obtain ⟨hlabel, hlt⟩ := List.mem_filter.mp hc
        exact Or.inl ⟨hlabel, of_decide_eq_true hlt⟩
      · rw [List.mem_singleton.mp hc]
        exact Or.inr ⟨by decide, by decide, by decide⟩
  · rintro ⟨w, n⟩ hw m -
    exact List.foldlRecOn (motive := (Writer.Spells · label)) _ _ hw fun w hw p _ => hw.visit _ _ p

end Punycode

/-! ## Labels -/

theorem asciiLabel_cases {label ascii : List Char} (h : asciiLabel label = .ok ascii) :
    ascii = label ∧ isAscii label = true ∨
      isAscii label = false ∧ ascii = ['x', 'n', '-', '-'] ++ Punycode.encode label := by
  unfold asciiLabel at h
  split at h
  · split at h
    · rename_i hmeans
      cases h
      exact Or.inl ⟨rfl, (Bool.and_eq_true_iff.mp hmeans).1⟩
    · cases h
  · split at h
    · rename_i hascii
      cases h
      exact Or.inl ⟨rfl, hascii⟩
    · rename_i hforeign
      cases h
      exact Or.inr ⟨by simpa using hforeign, rfl⟩

/-- A label in ASCII has such characters if those of the label do that are in ASCII already. -/
theorem isNameChar_of_asciiLabel {label ascii : List Char}
    (hkept : ∀ c ∈ label, c.toNat < 0x80 → IsNameChar c) (h : asciiLabel label = .ok ascii) :
    ∀ c ∈ ascii, IsNameChar c := by
  intro c hc
  rcases asciiLabel_cases h with ⟨rfl, hall⟩ | ⟨-, rfl⟩
  · exact hkept c hc (of_decide_eq_true (List.all_eq_true.mp hall c hc))
  · rcases List.mem_append.mp hc with hc | hc
    · have hprefix : ∀ c ∈ ['x', 'n', '-', '-'], c.toNat < 0x80 ∧ c.toLower = c ∧
          isForbiddenInDomain c = false := by
        rw [← List.all_iff_forall_prop]
        decide
      obtain ⟨hlt, hlower, hallowed⟩ := hprefix c hc
      exact ⟨hlt, hlower, hallowed⟩
    · rcases Punycode.isNameChar_of_mem_encode hc with ⟨hmem, hlt⟩ | hname
      · exact hkept c hmem hlt
      · exact hname

theorem mem_intercalate {sep c : Char} {pieces : List (List Char)}
    (hc : c ∈ [sep].intercalate pieces) : c = sep ∨ ∃ piece ∈ pieces, c ∈ piece := by
  induction pieces with
  | nil => cases hc
  | cons first rest ih =>
    cases rest with
    | nil => exact Or.inr ⟨first, List.mem_cons_self .., by simpa using hc⟩
    | cons second rest =>
      rw [List.intercalate_cons_cons, List.append_assoc, List.mem_append, List.mem_append,
        List.mem_singleton] at hc
      rcases hc with hc | hc | hc
      · exact Or.inr ⟨first, List.mem_cons_self .., hc⟩
      · exact Or.inl hc
      · obtain hsep | ⟨piece, hmem, hpiece⟩ := ih hc
        · exact Or.inl hsep
        · exact Or.inr ⟨piece, List.mem_cons_of_mem _ hmem, hpiece⟩

/-! ## Names -/

theorem domainToAscii_ok {bytes : Bytes} {domain : List Char}
    (h : domainToAscii bytes = .ok domain) :
    ∃ s labels, Utf8.decode? bytes = some s ∧
      (∀ c ∈ s.toList.flatMap mappedInDomain, isRefusedInDomain c = false) ∧
      (Text.splitChars '.' (s.toList.flatMap mappedInDomain)).mapM asciiLabel = .ok labels ∧
      domain = ['.'].intercalate labels := by
  unfold domainToAscii at h
  split at h
  · cases h
  · rename_i s hs
    dsimp only at h
    split at h
    · cases h
    · rename_i hrefused
      obtain ⟨labels, hlabels, h⟩ := exists_of_bind_ok h
      cases h
      rw [Bool.not_eq_true, List.any_eq_false] at hrefused
      exact ⟨s, labels, hs, fun c hc => Bool.eq_false_iff.mpr (hrefused c hc), hlabels, rfl⟩

theorem isNameChar_of_domainToAscii {bytes : Bytes} {domain : List Char}
    (h : domainToAscii bytes = .ok domain) : ∀ c ∈ domain, IsNameChar c := by
  obtain ⟨s, labels, -, hrefused, hlabels, rfl⟩ := domainToAscii_ok h
  intro c hc
  have hkept : ∀ piece ∈ Text.splitChars '.' (s.toList.flatMap mappedInDomain),
      ∀ c ∈ piece, c.toNat < 0x80 → IsNameChar c := by
    intro piece hpiece c hc hlt
    have hmem := Text.mem_of_mem_splitChars hpiece hc
    obtain ⟨d, -, hd⟩ := List.mem_flatMap.mp hmem
    exact isNameChar_of_not_refused hd hlt (hrefused c hmem)
  rcases mem_intercalate hc with rfl | ⟨label, hlabel, hc⟩
  · exact ⟨by decide, by decide, by decide⟩
  · obtain ⟨piece, hpiece, hascii⟩ := exists_of_mem_mapM hlabels hlabel
    exact isNameChar_of_asciiLabel (hkept piece hpiece) hascii c hc

/-! ## Reading a name once more -/

section

variable {name domain : List Char}

theorem decode_of_no_percent {bytes : Bytes} (h : ∀ b ∈ bytes, b ≠ 0x25) :
    decode bytes = bytes := by
  fun_induction decode bytes with
  | case1 hi lo rest byte hbyte ih => exact absurd rfl (h _ (List.mem_cons_self ..))
  | case2 hi lo rest hnone ih => exact absurd rfl (h _ (List.mem_cons_self ..))
  | case3 b hi lo rest hb ih => rw [ih fun b' hb' => h b' (List.mem_cons_of_mem _ hb')]
  | case4 bytes _ => rfl

theorem decode_of_name (hname : ∀ c ∈ name, IsNameChar c) :
    Utf8.decode? (decode (Utf8.encodeChars name)) = some (String.ofList name) := by
  have hascii : ∀ c ∈ name, c.toNat < 0x80 := fun c hc => (hname c hc).ascii
  rw [decode_of_no_percent, Utf8.decode?_encodeChars]
  intro b hb
  rw [Utf8.encodeChars_of_ascii hascii] at hb
  obtain ⟨c, hc, rfl⟩ := List.mem_map.mp hb
  have hpercent : c ≠ '%' := (hname c hc).ne (by decide)
  intro heq
  have hnat := congrArg UInt8.toNat heq
  rw [Utf8.toNat_toUInt8 (hascii c hc)] at hnat
  exact hpercent (Char.toNat_inj.mp hnat)

theorem flatMap_mappedInDomain_name (hname : ∀ c ∈ name, IsNameChar c) :
    (String.ofList name).toList.flatMap mappedInDomain = name := by
  rw [String.toList_ofList, List.flatMap_congr fun c hc => (hname c hc).mappedInDomain_eq]
  exact List.flatMap_singleton' name

theorem domainToAscii_name (hname : ∀ c ∈ name, IsNameChar c)
    (h : domainToAscii (decode (Utf8.encodeChars name)) = .ok domain) : domain = name := by
  obtain ⟨s, labels, hs, -, hlabels, rfl⟩ := domainToAscii_ok h
  rw [decode_of_name hname] at hs
  obtain rfl := Option.some.inj hs
  rw [flatMap_mappedInDomain_name hname] at hlabels
  have hascii : ∀ piece ∈ Text.splitChars '.' name, isAscii piece = true := by
    refine fun piece hpiece => List.all_eq_true.mpr fun c hc => decide_eq_true ?_
    exact (hname c (Text.mem_of_mem_splitChars hpiece hc)).ascii
  have hsame : List.Forall₂ (· = ·) (Text.splitChars '.' name) labels := by
    refine ((List.forall₂_and_left _ _).mpr ⟨hascii, forall₂_of_mapM hlabels⟩).imp ?_
    rintro piece label ⟨hpiece, hlabel⟩
    rcases asciiLabel_cases hlabel with ⟨heq, -⟩ | ⟨hforeign, -⟩
    · exact heq.symm
    · rw [hpiece] at hforeign
      cases hforeign
  rw [List.forall₂_eq_eq_eq] at hsame
  rw [← hsame, Text.intercalate_splitChars]

end

end Url

end ServiceCall
