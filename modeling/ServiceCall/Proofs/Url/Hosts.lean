import ServiceCall.Proofs.Url.Addresses

/-!
# Hosts that are read back

The text of a host that was read from an address is read as the same host again, if it is not
refused.
-/

namespace ServiceCall.Url

/-! ## Hosts as they are read -/

def Host.Canonical : Host → Prop
  | .empty => False
  | .name s => s ≠ "" ∧ (∀ c ∈ s.toList, IsNameChar c) ∧ endsInNumber s.toList = false
  | .ipv4 _ => True
  | .ipv6 pieces => pieces.length = 8 ∧ ∀ p ∈ pieces, p < 65536

theorem parseHost_ok {cs : List Char} {host : Host} (h : parseHost cs = .ok host) :
    (∃ rest pieces, cs = '[' :: rest ∧ rest.getLast? = some ']' ∧
        parseIpv6 rest.dropLast = .ok pieces ∧ host = .ipv6 pieces) ∨
      cs.head? ≠ some '[' ∧ ∃ domain, domainToAscii (decode (Utf8.encodeChars cs)) = .ok domain ∧
        domain ≠ [] ∧
          (endsInNumber domain = true ∧ (∃ n, parseIpv4 domain = .ok n ∧ host = .ipv4 n) ∨
            endsInNumber domain = false ∧ host = .name (String.ofList domain)) := by
  unfold parseHost bracketed? at h
  split at h
  · rename_i result hresult
    split at hresult
    · rename_i rest
      cases hresult
      split at h
      · rename_i hlast
        obtain ⟨pieces, hpieces, rfl⟩ := exists_of_map_ok h
        exact Or.inl ⟨rest, pieces, rfl, hlast, hpieces, rfl⟩
      · cases h
    · cases hresult
  · rename_i hnone
    right
    constructor
    · intro hhead
      obtain ⟨rest, rfl⟩ := List.head?_eq_some_iff.mp hhead
      cases hnone
    · obtain ⟨domain, hdomain, h⟩ := exists_of_bind_ok h
      split at h
      · cases h
      · rename_i hne
        refine ⟨domain, hdomain, by simpa using hne, ?_⟩
        split at h
        · rename_i hnumber
          obtain ⟨n, hn, rfl⟩ := exists_of_map_ok h
          exact Or.inl ⟨hnumber, n, hn, rfl⟩
        · rename_i hname
          cases h
          exact Or.inr ⟨by simpa using hname, rfl⟩

theorem canonical_of_parseHost {cs : List Char} {host : Host} (h : parseHost cs = .ok host) :
    host.Canonical := by
  rcases parseHost_ok h with ⟨rest, pieces, -, -, hpieces, rfl⟩ |
    ⟨-, domain, hdomain, hne, ⟨-, n, -, rfl⟩ | ⟨hname, rfl⟩⟩
  · exact parseIpv6_sound hpieces
  · trivial
  · have hchars := isNameChar_of_domainToAscii hdomain
    simp only [Host.Canonical, String.toList_ofList]
    refine ⟨?_, hchars, hname⟩
    intro hempty
    exact hne (String.ofList_eq_empty_iff.mp hempty)

/-! ## Texts of hosts -/

/-- A name, or names and colons in brackets. -/
inductive IsHostText : List Char → Prop
  | name {cs} (hne : cs ≠ []) (hname : ∀ c ∈ cs, IsNameChar c) : IsHostText cs
  | bracketed {cs} (hcs : ∀ c ∈ cs, IsNameChar c ∨ c = ':') : IsHostText ('[' :: cs ++ [']'])

theorem isNameChar_digitChar {d : Nat} (hd : d < 16) : IsNameChar (Nat.digitChar d) := by
  have hall : ∀ d < 16, (Nat.digitChar d).toNat < 0x80 ∧
      (Nat.digitChar d).toLower = Nat.digitChar d ∧
        isForbiddenInDomain (Nat.digitChar d) = false := by decide
  obtain ⟨hascii, hlower, hallowed⟩ := hall d hd
  exact ⟨hascii, hlower, hallowed⟩

theorem mem_ipv4Text {address : Nat} {c : Char} (hc : c ∈ (ipv4Text address).toList) :
    c = '.' ∨ ∃ d < 10, c = Nat.digitChar d := by
  rw [← Text.intercalate_splitChars '.' (ipv4Text address).toList, splitChars_ipv4Text] at hc
  refine (mem_intercalate hc).imp_right ?_
  rintro ⟨part, hpart, hc⟩
  obtain ⟨n, -, rfl⟩ := List.mem_map.mp hpart
  exact Text.exists_digitChar_of_mem (by omega) hc

theorem isNameChar_of_mem_ipv4Text {address : Nat} {c : Char}
    (hc : c ∈ (ipv4Text address).toList) : IsNameChar c := by
  rcases mem_ipv4Text hc with rfl | ⟨d, hd, rfl⟩
  · exact ⟨by decide, by decide, by decide⟩
  · exact isNameChar_digitChar (by omega)

theorem mem_joinedPieces {pieces : List Nat} {c : Char} (hc : c ∈ (joinedPieces pieces).toList) :
    c = ':' ∨ ∃ d < 16, c = Nat.digitChar d := by
  have hdigits : ∀ p : Nat, c ∈ Nat.toDigits 16 p → c = ':' ∨ ∃ d < 16, c = Nat.digitChar d :=
    fun p hp => Or.inr (Text.exists_digitChar_of_mem (by omega) hp)
  induction pieces with
  | nil => simp [joinedPieces] at hc
  | cons p ps ih =>
    cases ps with
    | nil =>
      rw [joinedPieces_singleton] at hc
      exact hdigits p hc
    | cons q ps =>
      rw [joinedPieces_cons_cons, List.mem_append, List.mem_cons] at hc
      rcases hc with hc | rfl | hc
      · exact hdigits p hc
      · exact Or.inl rfl
      · exact ih hc

theorem mem_ipv6Text {pieces : List Nat} {c : Char} (hc : c ∈ (ipv6Text pieces).toList) :
    c = ':' ∨ ∃ d < 16, c = Nat.digitChar d := by
  unfold ipv6Text at hc
  split at hc
  · simp only [String.toList_append, List.mem_append] at hc
    rcases hc with (hc | hc) | hc
    · exact mem_joinedPieces hc
    · simp at hc
      exact Or.inl hc
    · exact mem_joinedPieces hc
  · exact mem_joinedPieces hc

theorem isNameChar_of_mem_ipv6Text {pieces : List Nat} {c : Char}
    (hc : c ∈ (ipv6Text pieces).toList) : IsNameChar c ∨ c = ':' := by
  rcases mem_ipv6Text hc with rfl | ⟨d, hd, rfl⟩
  · exact Or.inr rfl
  · exact Or.inl (isNameChar_digitChar hd)

theorem text_ipv6 (pieces : List Nat) :
    (Host.ipv6 pieces).text.toList = '[' :: (ipv6Text pieces).toList ++ [']'] := by
  simp [Host.text]

theorem Host.Canonical.isHostText {host : Host} (h : host.Canonical) :
    IsHostText host.text.toList := by
  cases host with
  | empty => cases h
  | name s => exact .name (by simpa [Host.text] using h.1) h.2.1
  | ipv4 address =>
    refine .name ?_ fun c => isNameChar_of_mem_ipv4Text
    intro hnil
    have hparts := splitChars_ipv4Text address
    rw [show (ipv4Text address).toList = [] from hnil] at hparts
    simp [Text.splitChars, ipv4Parts] at hparts
  | ipv6 pieces =>
    rw [text_ipv6]
    exact .bracketed fun c => isNameChar_of_mem_ipv6Text

theorem parseHost_name {cs : List Char} {host : Host} (hname : ∀ c ∈ cs, IsNameChar c)
    (h : parseHost cs = .ok host) :
    endsInNumber cs = true ∧ (∃ n, parseIpv4 cs = .ok n ∧ host = .ipv4 n) ∨
      endsInNumber cs = false ∧ host = .name (String.ofList cs) := by
  rcases parseHost_ok h with ⟨rest, -, rfl, -⟩ | ⟨-, domain, hdomain, -, hcases⟩
  · exact absurd rfl ((hname '[' (List.mem_cons_self ..)).ne (by decide))
  · rwa [domainToAscii_name hname hdomain] at hcases

/-- A host is what its text is read as. -/
theorem parseHost_text {host host' : Host} (h : host.Canonical)
    (hread : parseHost host.text.toList = .ok host') : host' = host := by
  cases host with
  | empty => cases h
  | name s =>
    obtain ⟨-, hname, hnumber⟩ := h
    rcases parseHost_name hname hread with ⟨htrue, -⟩ | ⟨-, rfl⟩
    · rw [hnumber] at htrue
      cases htrue
    · rw [String.ofList_toList]
  | ipv4 address =>
    have hnumber := endsInNumber_ipv4Text address
    rcases parseHost_name (fun c => isNameChar_of_mem_ipv4Text) hread with ⟨-, n, hn, rfl⟩ |
      ⟨hfalse, -⟩
    · rw [parseIpv4_ipv4Text hn]
    · rw [hnumber] at hfalse
      cases hfalse
  | ipv6 pieces =>
    rw [text_ipv6, List.cons_append] at hread
    rcases parseHost_ok hread with ⟨rest, pieces', hcs, -, hpieces, rfl⟩ | ⟨hhead, -⟩
    · obtain ⟨-, rfl⟩ := List.cons.inj hcs
      rw [List.dropLast_concat, parseIpv6_ipv6Text h.1 h.2] at hpieces
      rw [Except.ok.inj hpieces]
    · exact absurd rfl hhead

end ServiceCall.Url
