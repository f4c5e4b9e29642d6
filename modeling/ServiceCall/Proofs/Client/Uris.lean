import ServiceCall.Proofs.Client.Targets
import ServiceCall.Proofs.Url.Canonical

/-!
# Addresses as request targets

The text of a canonical address of the web is a request target with the same parts, without the
fragment. It is refused only if it is too long, or its host is a name with a character that no
target may have.
-/

namespace ServiceCall

namespace Http.Uri

/-! ## Characters -/

theorem isPathChar_of_encoded {c : Char} (h : Url.IsEncoded Url.inPathSet c) :
    isPathChar c = true := by
  have hp : (Url.inPathSet c || isPathChar c) = true :=
    Url.of_ascii (p := fun c => Url.inPathSet c || isPathChar c) (by decide +kernel) h.ascii
  rwa [h.outside, Bool.false_or] at hp

theorem isQueryChar_of_encoded {c : Char} (h : Url.IsEncoded Url.inSpecialQuerySet c) :
    isQueryChar c = true := by
  have hp : (Url.inSpecialQuerySet c || isQueryChar c) = true :=
    Url.of_ascii (p := fun c => Url.inSpecialQuerySet c || isQueryChar c) (by decide +kernel) h.ascii
  rwa [h.outside, Bool.false_or] at hp

/-- A character that counts for nothing where an authority is read. -/
structure IsPlain (c : Char) : Prop where
  colon : c ≠ ':'
  opening : c ≠ '['
  closing : c ≠ ']'
  user : c ≠ '@'
  percent : c ≠ '%'

theorem isPlain_of_name {c : Char} (h : Url.IsNameChar c) : IsPlain c :=
  ⟨h.ne (by decide), h.ne (by decide), h.ne (by decide), h.ne (by decide), h.ne (by decide)⟩

theorem isPlain_of_user {c : Char} (h : Url.IsEncoded Url.inUserSet c) (hpercent : c ≠ '%') :
    IsPlain c ∧ isAuthorityChar c = true := by
  have hp : (Url.inUserSet c || c = '%' || isAuthorityChar c) = true :=
    Url.of_ascii (p := fun c => Url.inUserSet c || c = '%' || isAuthorityChar c) (by decide +kernel)
      h.ascii
  rw [h.outside, decide_eq_false hpercent, Bool.false_or, Bool.false_or] at hp
  exact ⟨⟨h.ne rfl, h.ne rfl, h.ne rfl, h.ne rfl, hpercent⟩, hp⟩

/-! ## The scan of an authority -/

section

variable {s : AuthorityScan} {cs : List Char} {c : Char}

theorem step_plain (h : IsPlain c) :
    s.step c = if isAuthorityChar c then .ok s else .error .character := by
  simp only [AuthorityScan.step, if_neg h.colon, if_neg h.opening, if_neg h.closing, if_neg h.user,
    if_neg h.percent]

theorem step_colon (h : s.colons < maxColons) :
    s.step ':' = .ok { s with colons := s.colons + 1 } := by
  simp only [AuthorityScan.step, if_true, if_neg (Nat.not_le.mpr h)]

/-- Plain characters and a few colons in a row. -/
theorem foldlM_plain (h : ∀ c ∈ cs, c = ':' ∨ IsPlain c ∧ isAuthorityChar c = true)
    (hcolons : s.colons + cs.count ':' ≤ maxColons) :
    cs.foldlM AuthorityScan.step s = .ok { s with colons := s.colons + cs.count ':' } := by
  induction cs generalizing s with
  | nil => rfl
  | cons c cs ih =>
    obtain ⟨hc, hcs⟩ := List.forall_mem_cons.mp h
    rw [List.foldlM_cons]
    rcases hc with rfl | ⟨hplain, hchar⟩
    · rw [List.count_cons_self] at hcolons ⊢
      rw [step_colon (by omega)]
      refine (ih hcs (by dsimp only; omega)).trans ?_
      dsimp only
      rw [Nat.add_assoc, Nat.add_comm 1]
    · rw [List.count_cons_of_ne hplain.colon] at hcolons ⊢
      rw [step_plain hplain, if_pos hchar]
      exact ih hcs hcolons

/-- A name is refused if one of its characters is. -/
theorem foldlM_name (h : ∀ c ∈ cs, IsPlain c) :
    cs.foldlM AuthorityScan.step s =
      if cs.all isAuthorityChar then .ok s else .error .character := by
  induction cs with
  | nil => rfl
  | cons c cs ih =>
    obtain ⟨hc, hcs⟩ := List.forall_mem_cons.mp h
    rw [List.foldlM_cons, step_plain hc, List.all_cons]
    cases isAuthorityChar c with
    | true => exact ih hcs
    | false => rfl

/-- A user part is forgotten, whatever escapes it has. -/
theorem foldlM_user (h : ∀ c ∈ cs, c = ':' ∨ Url.IsEncoded Url.inUserSet c)
    (hcolons : s.colons + cs.count ':' ≤ maxColons) :
    ∃ s', cs.foldlM AuthorityScan.step s = .ok s' ∧ s'.opened = s.opened ∧
      s'.closed = s.closed := by
  induction cs generalizing s with
  | nil => exact ⟨s, rfl, rfl, rfl⟩
  | cons c cs ih =>
    obtain ⟨hc, hcs⟩ := List.forall_mem_cons.mp h
    rw [List.foldlM_cons]
    rcases hc with rfl | hc
    · rw [List.count_cons_self] at hcolons
      rw [step_colon (by omega)]
      exact ih hcs (by dsimp only; omega)
    · by_cases hpercent : c = '%'
      · subst hpercent
        exact ih (s := { s with percent := true }) hcs hcolons
      · obtain ⟨hplain, hchar⟩ := isPlain_of_user hc hpercent
        rw [List.count_cons_of_ne hplain.colon] at hcolons
        rw [step_plain hplain, if_pos hchar]
        exact ih hcs hcolons

end

/-! ## The parts of an authority -/

section

variable {scheme : String} {a : Url.Authority} {host : Url.Host}

theorem foldlM_userText (h : a.Settled scheme) :
    a.userText.foldlM AuthorityScan.step {} = .ok {} := by
  have hencoded : ∀ c ∈ a.user.toList, c = ':' ∨ Url.IsEncoded Url.inUserSet c := by
    intro c hc
    rw [Url.Authority.user, String.toList_append, List.mem_append] at hc
    rcases hc with hc | hc
    · exact Or.inr ⟨h.usernameAscii c hc, h.username c hc⟩
    · split at hc
      · cases hc
      · rcases List.mem_append.mp (String.toList_append .. ▸ hc) with hc | hc
        · exact Or.inl (List.mem_singleton.mp hc)
        · exact Or.inr ⟨h.passwordAscii c hc, h.password c hc⟩
  have hnone : ∀ {s : String}, (∀ c ∈ s.toList, Url.inUserSet c = false) →
      s.toList.count ':' = 0 := by
    intro s hs
    refine List.count_eq_zero.mpr fun hmem => ?_
    have hin := hs _ hmem
    cases hin
  have hone : a.user.toList.count ':' ≤ 1 := by
    rw [Url.Authority.user, String.toList_append, List.count_append, hnone h.username]
    split
    · simp
    · rw [String.toList_append, List.count_append, hnone h.password]
      simp
  unfold Url.Authority.userText
  split
  · rfl
  · obtain ⟨s, hread, hopened, hclosed⟩ := foldlM_user (s := {}) hencoded
      (Nat.le_trans (Nat.le_of_eq (Nat.zero_add _)) (Nat.le_trans hone (by decide)))
    rw [String.toList_append, List.foldlM_append, hread]
    change Except.ok { s with colons := 0, percent := false } = _
    rw [hopened, hclosed]

theorem isAuthorityChar_digitChar : ∀ d < 16,
    isAuthorityChar (Nat.digitChar d) = true := by decide

theorem count_joinedPieces (pieces : List Nat) :
    (Url.joinedPieces pieces).toList.count ':' ≤ pieces.length - 1 := by
  have hdigits : ∀ p : Nat, (Nat.toDigits 16 p).count ':' = 0 := fun p =>
    List.count_eq_zero.mpr (Text.not_mem_toDigits (by omega) (by decide))
  induction pieces with
  | nil => simp [Url.joinedPieces]
  | cons p ps ih =>
    cases ps with
    | nil => rw [Url.joinedPieces_singleton, hdigits]; exact Nat.zero_le _
    | cons q ps =>
      rw [Url.joinedPieces_cons_cons, List.count_append, hdigits, List.count_cons_self]
      simp only [List.length_cons] at ih ⊢
      omega

theorem count_ipv6Text {pieces : List Nat} (hlength : pieces.length = 8) :
    (Url.ipv6Text pieces).toList.count ':' ≤ maxColons := by
  unfold maxColons Url.ipv6Text
  split
  · rename_i i n hrun
    obtain ⟨hn, hle, -⟩ := Url.longestZeroRun_eq hrun
    have hleft := count_joinedPieces (pieces.take i)
    have hright := count_joinedPieces (pieces.drop (i + n))
    have hgap : "::".toList.count ':' = 2 := by decide
    rw [List.length_take] at hleft
    rw [List.length_drop] at hright
    rw [String.toList_append, String.toList_append, List.count_append, List.count_append, hgap]
    omega
  · have hall := count_joinedPieces pieces
    omega

/-- Only a name can have a character that is refused. -/
theorem foldlM_hostText (h : host.Canonical) :
    ∃ bracketed, host.text.toList.foldlM AuthorityScan.step {} =
      if host.text.toList.all isAuthorityChar then
        .ok { opened := bracketed, closed := bracketed }
      else .error .character := by
  cases host with
  | empty => cases h
  | name s => exact ⟨false, foldlM_name fun c hc => isPlain_of_name (h.2.1 c hc)⟩
  | ipv4 address =>
    exact ⟨false, foldlM_name fun c hc => isPlain_of_name (Url.isNameChar_of_mem_ipv4Text hc)⟩
  | ipv6 pieces =>
    have hinner : ∀ c ∈ (Url.ipv6Text pieces).toList,
        c = ':' ∨ IsPlain c ∧ isAuthorityChar c = true := by
      intro c hc
      refine (Url.mem_ipv6Text hc).imp_right ?_
      rintro ⟨d, hd, rfl⟩
      exact ⟨isPlain_of_name (Url.isNameChar_digitChar hd), isAuthorityChar_digitChar d hd⟩
    have hall : ('[' :: ((Url.ipv6Text pieces).toList ++ [']'])).all isAuthorityChar = true := by
      rw [List.all_cons, List.all_append, Bool.and_eq_true, Bool.and_eq_true]
      refine ⟨by decide, List.all_eq_true.mpr fun c hc => ?_, by decide⟩
      rcases hinner c hc with rfl | ⟨-, hchar⟩
      · decide
      · exact hchar
    have hread := foldlM_plain (s := { opened := true }) hinner
      (Nat.le_trans (Nat.le_of_eq (Nat.zero_add _)) (count_ipv6Text h.1))
    refine ⟨true, ?_⟩
    rw [Url.text_ipv6, List.cons_append, if_pos hall, List.foldlM_cons]
    change ((Url.ipv6Text pieces).toList ++ [']']).foldlM AuthorityScan.step
      { opened := true } = _
    rw [List.foldlM_append, hread]
    rfl

theorem foldlM_portText (port : Option Nat) {s : AuthorityScan} (hs : s.colons = 0) :
    ∃ colons ≤ 1, (Url.portText port).foldlM AuthorityScan.step s =
      .ok { s with colons := colons } := by
  cases port with
  | none => exact ⟨0, Nat.zero_le _, by rw [← hs]; rfl⟩
  | some n =>
    have hplain : ∀ c ∈ Url.portText (some n), c = ':' ∨ IsPlain c ∧ isAuthorityChar c = true := by
      intro c hc
      refine (List.mem_cons.mp hc).imp_right fun hc => ?_
      obtain ⟨d, hd, rfl⟩ := Text.exists_digitChar_of_mem (by omega) hc
      exact ⟨isPlain_of_name (Url.isNameChar_digitChar (by omega)),
        isAuthorityChar_digitChar d (by omega)⟩
    have hno : ':' ∉ Nat.toDigits 10 n := Text.not_mem_toDigits (by omega) (by decide)
    have hone : (Url.portText (some n)).count ':' = 1 := by
      rw [Url.portText, List.count_cons_self, List.count_eq_zero.mpr hno]
    have hread := foldlM_plain (s := s) hplain (by rw [hs, hone]; decide)
    rw [hone, hs] at hread
    exact ⟨1, Nat.le_refl 1, hread⟩

theorem foldlM_text (h : a.Settled scheme) :
    ∃ bracketed, ∃ colons ≤ 1, a.text.toList.foldlM AuthorityScan.step {} =
      if a.host.text.toList.all isAuthorityChar then
        .ok { colons := colons, opened := bracketed, closed := bracketed }
      else .error .character := by
  obtain ⟨bracketed, hhost⟩ := foldlM_hostText h.host
  obtain ⟨colons, hcolons, hport⟩ := foldlM_portText a.port
    (s := { opened := bracketed, closed := bracketed }) rfl
  refine ⟨bracketed, colons, hcolons, ?_⟩
  rw [a.toList_text, List.foldlM_append, foldlM_userText h]
  change (a.host.text.toList ++ Url.portText a.port).foldlM AuthorityScan.step {} = _
  rw [List.foldlM_append, hhost]
  split
  · exact hport
  · rfl

theorem getLast?_text (h : a.Settled scheme) : a.text.toList.getLast? ≠ some '@' := by
  have hbehind : a.host.text.toList ++ Url.portText a.port ≠ [] :=
    List.append_ne_nil_of_left_ne_nil h.host.isHostText.ne_nil _
  rw [a.toList_text, List.getLast?_append_of_ne_nil _ hbehind]
  intro hlast
  rcases List.mem_append.mp (List.mem_of_getLast? hlast) with hmem | hmem
  · exact (h.host.isHostText.chars _ hmem).1 rfl
  · exact (Url.portText_chars a.port _ hmem).1 rfl

theorem splitAuthority_text (h : a.Settled scheme) (more : List Char) :
    splitAuthority (a.text.toList ++ '/' :: more) =
      if a.host.text.toList.all isAuthorityChar then .ok (a.text.toList, '/' :: more)
      else .error .character := by
  have hinside : ∀ c ∈ a.text.toList, (!endsAuthority c) = true := by
    intro c hc
    rw [endsAuthority_of_url (h.text_chars.2 c hc).inside]
    rfl
  have hspan : (a.text.toList ++ '/' :: more).span (fun c => !endsAuthority c) =
      (a.text.toList, '/' :: more) := by
    rw [List.span_eq_takeWhile_dropWhile, List.takeWhile_append_of_pos hinside,
      List.dropWhile_append_of_pos hinside, List.takeWhile_cons_of_neg (by decide),
      List.dropWhile_cons_of_neg (by decide), List.append_nil]
  obtain ⟨bracketed, colons, hcolons, hscan⟩ := foldlM_text h
  unfold splitAuthority
  rw [hspan]
  dsimp only
  rw [hscan]
  split
  · refine if_neg ?_
    have hfew : decide (colons > 1) = false := decide_eq_false (by omega)
    simp only [bne_self_eq_false, hfew, decide_eq_false (getLast?_text h), Bool.or_self]
    exact Bool.false_ne_true
  · rfl

end

/-! ## Whole targets -/

variable {url : Url} {a : Url.Authority}

theorem splitPath_text (h : url.Canonical) :
    splitPath (url.path.toList ++ Url.tailText url.query url.fragment) =
      .ok (url.path, url.query) := by
  have hspan := h.splitPath_text
  have hpath : url.path.toList.all isPathChar = true := by
    refine List.all_eq_true.mpr fun c hc => ?_
    rcases h.path_chars hc with rfl | hencoded
    · decide
    · exact isPathChar_of_encoded hencoded
  unfold Url.splitPath at hspan
  unfold splitPath
  rw [hspan]
  dsimp only
  rw [hpath, String.ofList_toList]
  cases hquery : url.query with
  | none =>
    cases url.fragment <;> rfl
  | some q =>
    have hkept : ∀ c ∈ q.toList, decide (c ≠ '#') = true :=
      fun c hc => decide_eq_true ((h.query q hquery c hc).ne rfl)
    have hchars : q.toList.all isQueryChar = true :=
      List.all_eq_true.mpr fun c hc => isQueryChar_of_encoded (h.query q hquery c hc)
    have htake : (q.toList ++ url.fragment.elim [] fun f => '#' :: f.toList).takeWhile (· ≠ '#') =
        q.toList := by
      rw [List.takeWhile_append_of_pos hkept]
      cases url.fragment <;> simp
    have htail : Url.tailText (some q) url.fragment =
        '?' :: (q.toList ++ url.fragment.elim [] fun f => '#' :: f.toList) := rfl
    rw [htail]
    change (if (!((q.toList ++ url.fragment.elim [] fun f => '#' :: f.toList).takeWhile
      (· ≠ '#')).all isQueryChar) = true then _ else _) = _
    rw [htake, hchars, String.ofList_toList]
    rfl

/-- The target of a canonical address, unless it is too long or its host cannot be written. -/
theorem parse_text (h : url.Canonical) (ha : url.authority = some a) :
    parse url.text =
      if url.text.utf8ByteSize > maxLength then .error .tooLong
      else if a.host.text.toList.all isAuthorityChar then
        .ok ⟨some url.scheme, some a.text, url.path, url.query⟩
      else .error .character := by
  obtain ⟨a', ha', hsettled⟩ := h.authority
  obtain rfl : a' = a := Option.some.inj (ha'.symm.trans ha)
  obtain ⟨path, hpath, -⟩ := h.path
  have hauthority := splitAuthority_text hsettled (path ++ Url.tailText url.query url.fragment)
  rw [← List.cons_append, ← hpath] at hauthority
  have hne : ¬a'.text.toList.isEmpty = true := by simpa using hsettled.text_chars.1
  rw [parse_of_scheme ((Url.isWeb_iff url).mp h.web) (Url.toList_text ha)]
  split
  · rfl
  · rw [hauthority]
    split
    · change (if a'.text.toList.isEmpty then _ else _) = _
      rw [if_neg hne, splitPath_text h]
      exact congrArg (fun s => Except.ok (⟨some url.scheme, some s, url.path, url.query⟩ : Uri))
        String.ofList_toList
    · rfl

end Http.Uri

end ServiceCall
