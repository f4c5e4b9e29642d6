import ServiceCall.Proofs.Url.Authorities
import ServiceCall.Proofs.Url.Labels

/-!
# Hosts that are read once more

What a host was read as is not refused when its text is read again. Of a name this takes that a
letter in lower case stays as it is, and that a label in Punycode stands for what it was made of.
-/

namespace ServiceCall.Url

/-! ## Letters -/

/-- The code point of a letter outside ASCII that has a lower case. -/
def IsCapital (n : Nat) : Prop :=
  (0xC0 ≤ n ∧ n ≤ 0xDE ∧ n ≠ 0xD7) ∨ n = 0x178 ∨
    ((0x100 ≤ n ∧ n ≤ 0x137 ∨ 0x14A ≤ n ∧ n ≤ 0x177 ∨ 0x1E00 ≤ n ∧ n ≤ 0x1E95 ∨
      0x1EA0 ≤ n ∧ n ≤ 0x1EFF ∨ 0x460 ≤ n ∧ n ≤ 0x481 ∨ 0x48A ≤ n ∧ n ≤ 0x4BF) ∧
        n % 2 = 0 ∧ n ≠ 0x130) ∨
    ((0x139 ≤ n ∧ n ≤ 0x148 ∨ 0x179 ≤ n ∧ n ≤ 0x17E) ∧ n % 2 = 1) ∨
    n = 0x386 ∨ (0x388 ≤ n ∧ n ≤ 0x38A) ∨ n = 0x38C ∨ n = 0x38E ∨ n = 0x38F ∨
    (0x391 ≤ n ∧ n ≤ 0x3AB ∧ n ≠ 0x3A2) ∨ (0x400 ≤ n ∧ n ≤ 0x42F) ∨ (0x531 ≤ n ∧ n ≤ 0x556)

/-- The code point of a character outside ASCII that a name keeps as it is. -/
def IsKept (n : Nat) : Prop :=
  0x80 ≤ n ∧ ¬IsCapital n ∧ n ≠ 0xAD ∧ n ≠ 0x34F ∧ n ≠ 0x200B ∧ n ≠ 0x2060 ∧ n ≠ 0xFEFF ∧
    ¬(0xFE00 ≤ n ∧ n ≤ 0xFE0F) ∧ n ≠ 0x3002 ∧ n ≠ 0xFF61 ∧ ¬(0xFF01 ≤ n ∧ n ≤ 0xFF5E)

theorem lowerLetter_of_not_capital {c : Char} (hforeign : 0x80 ≤ c.toNat)
    (h : ¬IsCapital c.toNat) : lowerLetter c = c := by
  unfold IsCapital at h
  unfold lowerLetter
  dsimp only
  generalize c.toNat = n at h hforeign ⊢
  have next : ∀ {p : Prop} [Decidable p] {a b : Char}, ¬p → b = c → (if p then a else b) = c :=
    fun hp hb => (if_neg hp).trans hb
  have either : ∀ {p : Prop} [Decidable p] {a b : Char}, (p → a = c) → b = c →
      (if p then a else b) = c := by
    intro p _ a b ha hb
    split
    · exact ha ‹p›
    · exact hb
  refine next ?_ <| next ?_ <| next ?_ <| either (fun _ => next ?_ rfl) <|
    either (fun _ => next ?_ rfl) <| next ?_ <| next ?_ <| next ?_ <| next ?_ <| next ?_ <|
    next ?_ <| next ?_ rfl
  all_goals try simp only [Bool.and_eq_true, Bool.or_eq_true, decide_eq_true_eq] at *
  all_goals omega

theorem mappedInDomain_of_isKept {c : Char} (h : IsKept c.toNat) : mappedInDomain c = [c] := by
  obtain ⟨hforeign, hcapital, hrest⟩ := h
  have hlower := lowerLetter_of_not_capital hforeign hcapital
  unfold mappedInDomain isIgnoredInDomain
  dsimp only
  rw [if_neg, if_neg, if_neg, hlower]
  all_goals
    simp only [Bool.and_eq_true, Bool.or_eq_true, decide_eq_true_eq]
    omega

theorem isKept_shifted {c : Char} {n offset : Nat} (hc : c.toNat = n) (hn : n + offset < 0xD800)
    (h : IsKept (n + offset)) : IsKept (shifted offset c).toNat := by
  subst hc
  rwa [shifted, Text.toNat_ofNat hn]

/-- A letter in lower case is kept, whatever letter it comes from. -/
theorem isKept_lowerLetter {c : Char} (hforeign : 0x80 ≤ c.toNat) :
    IsKept (lowerLetter c).toNat ∨ lowerLetter c = c := by
  have either : ∀ {p : Prop} [Decidable p] {a b : Char}, (p → IsKept a.toNat ∨ a = c) →
      (IsKept b.toNat ∨ b = c) → IsKept (if p then a else b).toNat ∨ (if p then a else b) = c := by
    intro p _ a b ha hb
    split
    · exact ha ‹p›
    · exact hb
  unfold lowerLetter
  dsimp only
  rw [if_neg (Nat.not_lt.mpr hforeign)]
  generalize hn : c.toNat = n
  have hshifted : ∀ {offset : Nat}, n + offset < 0xD800 → IsKept (n + offset) →
      IsKept (shifted offset c).toNat ∨ shifted offset c = c :=
    fun hlt hkept => Or.inl (isKept_shifted hn hlt hkept)
  have hsame : IsKept c.toNat ∨ c = c := Or.inr rfl
  -- One alphabet after the other.
  refine either (fun hp => hshifted ?_ ?_) <| either (fun _ => Or.inl ?_) <|
    either (fun hp => either (fun hq => hshifted ?_ ?_) hsame) <|
    either (fun hp => either (fun hq => hshifted ?_ ?_) hsame) <|
    either (fun _ => Or.inl ?_) <| either (fun hp => hshifted ?_ ?_) <|
    either (fun _ => Or.inl ?_) <| either (fun hp => hshifted ?_ ?_) <|
    either (fun hp => hshifted ?_ ?_) <| either (fun hp => hshifted ?_ ?_) <|
    either (fun hp => hshifted ?_ ?_) hsame
  all_goals clear either hshifted hsame hforeign hn
  all_goals try simp only [Bool.and_eq_true, Bool.or_eq_true, decide_eq_true_eq] at *
  all_goals try unfold IsKept IsCapital
  all_goals first | omega | decide

theorem lowerLetter_of_ascii {c : Char} (h : c.toNat < 0x80) : lowerLetter c = c.toLower := by
  unfold lowerLetter
  exact if_pos h

theorem mappedInDomain_of_ascii {c : Char} (h : c.toNat < 0x80) (hlower : c.toLower = c) :
    mappedInDomain c = [c] := by
  have hletter := lowerLetter_of_ascii h
  unfold mappedInDomain isIgnoredInDomain
  dsimp only
  rw [if_neg, if_neg, if_neg, hletter, hlower]
  all_goals
    simp only [Bool.and_eq_true, Bool.or_eq_true, decide_eq_true_eq]
    omega

/-- A character that stands for one outside ASCII stands for its letter in lower case. -/
theorem mem_mappedInDomain {c d : Char} (hd : d ∈ mappedInDomain c) :
    d.toNat < 0x80 ∨ 0x80 ≤ c.toNat ∧ d = lowerLetter c ∧ mappedInDomain c = [lowerLetter c] := by
  unfold mappedInDomain at hd
  dsimp only at hd
  split at hd
  · cases hd
  · rename_i hignored
    split at hd
    · left
      rw [List.mem_singleton.mp hd]
      decide
    · rename_i hdot
      split at hd
      · rename_i hwide
        simp only [Bool.and_eq_true, decide_eq_true_eq] at hwide
        have hnarrow : (Char.ofNat (c.toNat - 0xFEE0)).toNat = c.toNat - 0xFEE0 :=
          Text.toNat_ofNat (by omega)
        left
        rw [List.mem_singleton.mp hd]
        exact Text.toNat_toLower_lt (by omega)
      · rename_i hwide
        have hself : mappedInDomain c = [lowerLetter c] := by
          unfold mappedInDomain
          dsimp only
          rw [if_neg hignored, if_neg hdot, if_neg hwide]
        by_cases hc : c.toNat < 0x80
        · left
          rw [List.mem_singleton.mp hd, lowerLetter_of_ascii hc]
          exact Text.toNat_toLower_lt hc
        · exact Or.inr ⟨Nat.not_lt.mp hc, List.mem_singleton.mp hd, hself⟩

/-- What a character of a name stands for stands for itself. -/
theorem mappedInDomain_of_mem {c d : Char} (hd : d ∈ mappedInDomain c) :
    mappedInDomain d = [d] := by
  by_cases hlt : d.toNat < 0x80
  · exact mappedInDomain_of_ascii hlt (isSmall_of_mem_mapped hd hlt)
  · obtain ⟨hforeign, rfl, hself⟩ := (mem_mappedInDomain hd).resolve_left hlt
    rcases isKept_lowerLetter hforeign with hkept | hsame
    · exact mappedInDomain_of_isKept hkept
    · rw [hsame] at hself ⊢
      exact hself

/-! ## Labels -/

/-- A character that is in the labels of a name once it has been mapped. -/
structure IsLabelChar (c : Char) : Prop where
  mapped : mappedInDomain c = [c]
  allowed : isRefusedInDomain c = false
  inside : c ≠ '.'

theorem IsLabelChar.isNameChar {c : Char} (h : IsLabelChar c) (hlt : c.toNat < 0x80) :
    IsNameChar c :=
  isNameChar_of_not_refused (h.mapped ▸ List.mem_singleton_self c) hlt h.allowed

/-- A label in ASCII is one that is read as itself. -/
theorem asciiLabel_asciiLabel {label ascii : List Char} (hlabel : ∀ c ∈ label, IsLabelChar c)
    (h : asciiLabel label = .ok ascii) : asciiLabel ascii = .ok ascii ∧ '.' ∉ ascii := by
  have hkept : ∀ c ∈ label, c.toNat < 0x80 → IsNameChar c :=
    fun c hc hlt => (hlabel c hc).isNameChar hlt
  have hascii : isAscii ascii = true :=
    List.all_eq_true.mpr fun c hc => decide_eq_true (isNameChar_of_asciiLabel hkept h c hc).ascii
  have hdot : '.' ∉ label := fun hmem => (hlabel _ hmem).inside rfl
  rcases asciiLabel_cases h with ⟨rfl, -⟩ | ⟨hforeign, rfl⟩
  · exact ⟨h, hdot⟩
  · constructor
    · have hmeans : isMeaning label = true := by
        unfold isMeaning
        rw [hforeign, Bool.not_false, Bool.true_and, List.all_eq_true]
        intro c hc
        rw [decide_eq_true (hlabel c hc).mapped, (hlabel c hc).allowed]
        rfl
      have hdecoded : (Punycode.decode? (Punycode.encode label)).any isMeaning = true := by
        rw [Punycode.decode?_encode]
        exact hmeans
      exact if_pos (Bool.and_eq_true_iff.mpr ⟨hascii, hdecoded⟩)
    · rw [List.mem_append, not_or]
      exact ⟨by decide, Punycode.not_mem_encode hdot (by decide) (by decide)⟩

/-! ## Names -/

/-- A name whose labels are read as themselves is read as itself. -/
theorem domainToAscii_of_labels {name : List Char} (hname : ∀ c ∈ name, IsNameChar c)
    (hlabels : ∀ label ∈ Text.splitChars '.' name, asciiLabel label = .ok label) :
    domainToAscii (decode (Utf8.encodeChars name)) = .ok name := by
  have hread : (Text.splitChars '.' name).mapM asciiLabel = .ok (Text.splitChars '.' name) :=
    mapM_of_forall₂ (List.forall₂_same.mpr hlabels)
  have hallowed : name.any isRefusedInDomain = false := by
    rw [List.any_eq_false]
    exact fun c hc => Bool.eq_false_iff.mp (hname c hc).not_refused
  unfold domainToAscii
  rw [decode_of_name hname]
  dsimp only
  rw [flatMap_mappedInDomain_name hname, hallowed, if_neg Bool.false_ne_true, hread]
  exact congrArg Except.ok (Text.intercalate_splitChars '.' name)

theorem domainToAscii_domain {bytes : Bytes} {domain : List Char}
    (h : domainToAscii bytes = .ok domain) :
    domainToAscii (decode (Utf8.encodeChars domain)) = .ok domain := by
  have hname := isNameChar_of_domainToAscii h
  obtain ⟨s, labels, -, hrefused, hlabels, rfl⟩ := domainToAscii_ok h
  have hchars : ∀ piece ∈ Text.splitChars '.' (s.toList.flatMap mappedInDomain),
      ∀ c ∈ piece, IsLabelChar c := by
    intro piece hpiece c hc
    have hmem := Text.mem_of_mem_splitChars hpiece hc
    obtain ⟨d, -, hd⟩ := List.mem_flatMap.mp hmem
    refine ⟨mappedInDomain_of_mem hd, hrefused c hmem, ?_⟩
    rintro rfl
    exact Text.not_mem_of_mem_splitChars hpiece hc
  have hsame : ∀ label ∈ labels, asciiLabel label = .ok label ∧ '.' ∉ label := by
    intro label hlabel
    obtain ⟨piece, hpiece, hascii⟩ := exists_of_mem_mapM hlabels hlabel
    exact asciiLabel_asciiLabel (hchars piece hpiece) hascii
  have hne : labels ≠ [] := by
    rintro rfl
    exact Text.splitChars_ne_nil _ _ (List.forall₂_nil_right_iff.mp (forall₂_of_mapM hlabels))
  refine domainToAscii_of_labels hname ?_
  rw [Text.splitChars_intercalate hne fun label hlabel => (hsame label hlabel).2]
  exact fun label hlabel => (hsame label hlabel).1

/-! ## IPv4 -/

theorem parseIpv4_lt {cs : List Char} {n : Nat} (h : parseIpv4 cs = .ok n) : n < 4294967296 := by
  obtain ⟨numbers, -, hlength, hleading, hlast, rfl⟩ := parseIpv4_ok h
  have hshort : numbers.dropLast.length ≤ 3 := by
    rw [List.length_dropLast]
    omega
  generalize numbers.getLast?.getD 0 = last at hlast ⊢
  generalize numbers.dropLast = leading at hshort hleading hlast ⊢
  rw [Nat.shiftLeft_eq, Nat.one_mul] at hlast
  match leading, hshort with
  | [], _ => exact hlast
  | [a], _ =>
    have ha := hleading a (by simp)
    have hlast : last < 2 ^ 24 := hlast
    change last + a <<< 24 < _
    rw [Nat.shiftLeft_eq]
    omega
  | [a, b], _ =>
    have ha := hleading a (by simp)
    have hb := hleading b (by simp)
    have hlast : last < 2 ^ 16 := hlast
    change last + a <<< 24 + b <<< 16 < _
    rw [Nat.shiftLeft_eq, Nat.shiftLeft_eq]
    omega
  | [a, b, c], _ =>
    have ha := hleading a (by simp)
    have hb := hleading b (by simp)
    have hc := hleading c (by simp)
    have hlast : last < 2 ^ 8 := hlast
    change last + a <<< 24 + b <<< 16 + c <<< 8 < _
    rw [Nat.shiftLeft_eq, Nat.shiftLeft_eq, Nat.shiftLeft_eq]
    omega

/-- Four bytes in decimal are an address. -/
theorem exists_parseIpv4 {cs : List Char} {bytes : List Nat} (hlength : bytes.length = 4)
    (hbytes : ∀ b ∈ bytes, b < 256)
    (hparts : dropLastIfEmpty (Text.splitChars '.' cs) = bytes.map (Nat.toDigits 10)) :
    ∃ n, parseIpv4 cs = .ok n := by
  have hnumbers : ∀ read : List Char → Except Problem Nat,
      (∀ b ∈ bytes, read (Nat.toDigits 10 b) = .ok b) →
        (bytes.map (Nat.toDigits 10)).mapM read = .ok bytes := fun read hread =>
    mapM_of_forall₂ (List.forall₂_map_left_iff.mpr (List.forall₂_same.mpr hread))
  have hleading : bytes.dropLast.any (· > 255) = false := by
    rw [List.any_eq_false]
    intro b hb
    have hlt := hbytes b (List.dropLast_subset _ hb)
    rw [decide_eq_true_eq]
    omega
  have hlast : bytes.getLast?.getD 0 < 256 := by
    obtain ⟨init, last, rfl⟩ := (List.eq_nil_or_concat' bytes).resolve_left (by
      rintro rfl
      cases hlength)
    rw [List.getLast?_concat]
    exact hbytes last (by simp)
  have hroom : decide (bytes.getLast?.getD 0 ≥ 1 <<< (8 * (4 - bytes.dropLast.length))) = false := by
    rw [decide_eq_false_iff_not, Nat.not_le, List.length_dropLast, hlength]
    exact hlast
  unfold parseIpv4
  dsimp only
  rw [hparts, if_neg (by rw [List.length_map, hlength]; omega), hnumbers]
  · refine ⟨_, if_neg ?_⟩
    rw [hleading, hroom]
    exact Bool.false_ne_true
  · intro b hb
    have hlt := hbytes b hb
    rw [ipv4Part?_toDigits, if_pos (by omega)]

theorem parseIpv4_of_lt {address : Nat} (h : address < 4294967296) :
    parseIpv4 (ipv4Text address).toList = .ok address := by
  obtain ⟨n, hn⟩ : ∃ n, parseIpv4 (ipv4Text address).toList = .ok n := by
    refine @exists_parseIpv4 _ [address / 16777216, address / 65536 % 256,
      address / 256 % 256, address % 256] rfl ?_ ?_
    · simp
      omega
    · rw [splitChars_ipv4Text, dropLastIfEmpty_ipv4Parts]
      rfl
  rw [hn, parseIpv4_ipv4Text hn]

theorem asciiLabel_toDigits (n : Nat) :
    asciiLabel (Nat.toDigits 10 n) = .ok (Nat.toDigits 10 n) := by
  have hx : 'x' ∉ Nat.toDigits 10 n := Text.not_mem_toDigits (by omega) (by decide)
  have hascii : isAscii (Nat.toDigits 10 n) = true := by
    refine List.all_eq_true.mpr fun c hc => decide_eq_true ?_
    obtain ⟨d, hd, rfl⟩ := Text.exists_digitChar_of_mem (by omega) hc
    exact (isNameChar_digitChar (by omega)).ascii
  unfold asciiLabel
  split
  · rename_i hdigits
    rw [hdigits] at hx
    exact absurd (List.mem_cons_self ..) hx
  · exact if_pos hascii

theorem domainToAscii_ipv4Text (address : Nat) :
    domainToAscii (decode (Utf8.encodeChars (ipv4Text address).toList)) =
      .ok (ipv4Text address).toList := by
  refine domainToAscii_of_labels (fun c => isNameChar_of_mem_ipv4Text) ?_
  rw [splitChars_ipv4Text]
  intro label hlabel
  obtain ⟨n, -, rfl⟩ := List.mem_map.mp hlabel
  exact asciiLabel_toDigits n

/-! ## Hosts -/

theorem parseHost_of_name {name : List Char} (hne : name ≠ []) (hname : ∀ c ∈ name, IsNameChar c)
    (h : domainToAscii (decode (Utf8.encodeChars name)) = .ok name) :
    parseHost name = if endsInNumber name then (parseIpv4 name).map .ipv4
      else .ok (.name (String.ofList name)) := by
  have hplain : bracketed? name = none := by
    unfold bracketed?
    split
    · exact absurd rfl ((hname '[' (List.mem_cons_self ..)).ne (by decide))
    · rfl
  unfold parseHost
  rw [hplain, h]
  exact if_neg (by simpa using hne)

/-- The text of a host is read, and as this host. -/
theorem parseHost_of_parseHost {cs : List Char} {host : Host} (h : parseHost cs = .ok host) :
    parseHost host.text.toList = .ok host := by
  have hcanonical := canonical_of_parseHost h
  rcases parseHost_ok h with ⟨_, pieces, -, -, -, rfl⟩ |
    ⟨-, domain, hdomain, hne, ⟨-, n, hn, rfl⟩ | ⟨hname, rfl⟩⟩
  · have hread := parseIpv6_ipv6Text hcanonical.1 hcanonical.2
    have hbracketed : bracketed? ('[' :: ((ipv6Text pieces).toList ++ [']'])) =
        some (.ok (.ipv6 pieces)) := by
      refine congrArg some ((if_pos List.getLast?_concat).trans ?_)
      rw [List.dropLast_concat, hread]
      rfl
    rw [text_ipv6, List.cons_append]
    unfold parseHost
    rw [hbracketed]
  · have hne : (ipv4Text n).toList ≠ [] := hcanonical.isHostText.ne_nil
    change parseHost (ipv4Text n).toList = _
    rw [parseHost_of_name hne (fun c => isNameChar_of_mem_ipv4Text) (domainToAscii_ipv4Text n),
      if_pos (endsInNumber_ipv4Text n), parseIpv4_of_lt (parseIpv4_lt hn)]
    rfl
  · change parseHost (String.ofList domain).toList = _
    rw [String.toList_ofList, parseHost_of_name hne (isNameChar_of_domainToAscii hdomain)
      (domainToAscii_domain hdomain), if_neg (by simp [hname])]

end ServiceCall.Url
