import ServiceCall.Proofs.Url.Hosts
import ServiceCall.Proofs.Url.Percent
import ServiceCall.Url.Parse
import Mathlib.Data.List.TakeDrop

/-!
# Authorities that are read back

Host and port of an authority that was read from an address are found again in its text, whatever
follows the text behind a slash.
-/

namespace ServiceCall.Url

variable {scheme : String} {cs rest more : List Char} {a a' : Authority}

/-! ## The steps of reading -/

/-- The port behind a host, if there is one, and what follows it. -/
def portBehind (scheme : String) : List Char → Except Problem (Option Nat × List Char)
  | ':' :: rest => readPort scheme rest
  | rest => .ok (none, rest)

theorem behindHost_ok {username password : String} {host : Host} (h : (do
      let (port, rest) ← match cs with
        | ':' :: rest => readPort scheme rest
        | _ => .ok (none, cs)
      if host = .empty && !(username.isEmpty && password.isEmpty) then .error .emptyHost
      return ((⟨username, password, host, port⟩ : Authority), rest)) = Except.ok (a, rest)) :
    a.username = username ∧ a.password = password ∧ a.host = host ∧
      portBehind scheme cs = .ok (a.port, rest) := by
  unfold portBehind
  dsimp only at h
  split at h
  · obtain ⟨⟨port, rest'⟩, hport, h⟩ := exists_of_bind_ok h
    split at h
    · cases h
    · cases h
      exact ⟨rfl, rfl, rfl, hport⟩
  · split at h
    · cases h
    · cases h
      exact ⟨rfl, rfl, rfl, rfl⟩

theorem behindHost_of_portBehind {username password : String} {host : Host} {port : Option Nat}
    (hhost : host ≠ .empty) (h : portBehind scheme cs = .ok (port, rest)) : (do
      let (port, rest) ← match cs with
        | ':' :: rest => readPort scheme rest
        | _ => .ok (none, cs)
      if host = .empty && !(username.isEmpty && password.isEmpty) then .error .emptyHost
      return ((⟨username, password, host, port⟩ : Authority), rest)) =
        Except.ok (⟨username, password, host, port⟩, rest) := by
  have hempty : decide (host = .empty) = false := decide_eq_false hhost
  unfold portBehind at h
  simp only [hempty, Bool.false_and, Bool.false_eq_true, if_false]
  split at h
  · rw [h]
    rfl
  · cases h
    rfl

theorem readAuthority_ok (hk : kindOf scheme = .special)
    (h : readAuthority scheme cs = .ok (a, rest)) :
    ∃ user? behind, splitUser .special cs = .ok (user?, behind) ∧
      a.username = (user?.elim ("", "") readUser).1 ∧
      a.password = (user?.elim ("", "") readUser).2 ∧
      parseHost (behind.take (hostLength .special false behind)) = .ok a.host ∧
      portBehind scheme (behind.drop (hostLength .special false behind)) = .ok (a.port, rest) := by
  unfold readAuthority at h
  rw [hk] at h
  obtain ⟨⟨user?, behind⟩, huser, h⟩ := exists_of_bind_ok h
  dsimp only at h
  simp only [decide_true, Bool.true_and, if_true] at h
  split at h
  · cases h
  · obtain ⟨host, hhost, h⟩ := exists_of_bind_ok h
    split at h
    · cases h
    · have hall : a.username = (user?.elim ("", "") readUser).1 ∧
          a.password = (user?.elim ("", "") readUser).2 ∧ a.host = host ∧
            portBehind scheme (behind.drop (hostLength .special false behind)) =
              .ok (a.port, rest) := by
        cases user? with
        | none => exact behindHost_ok h
        | some user => exact behindHost_ok h
      obtain ⟨hname, hpassword, rfl, hport⟩ := hall
      exact ⟨user?, behind, huser, hname, hpassword, hhost, hport⟩

/-! ## Authorities as they are read -/

theorem not_inUserSet_of_mem_encode {c : Char} (hc : c ∈ encode inUserSet cs) :
    inUserSet c = false :=
  (isEncoded_of_mem_encode rfl (by decide) hc).outside

theorem not_inUserSet_of_mem_readUser (user : List Char) {c : Char} :
    (c ∈ (readUser user).1.toList → inUserSet c = false) ∧
      (c ∈ (readUser user).2.toList → inUserSet c = false) := by
  simp only [readUser, String.toList_ofList]
  exact ⟨not_inUserSet_of_mem_encode, not_inUserSet_of_mem_encode⟩

theorem readPort_ok {port : Nat} (h : readPort scheme cs = .ok (some port, rest)) :
    port ≤ 65535 ∧ defaultPort? scheme ≠ some port := by
  unfold readPort at h
  dsimp only at h
  split at h
  · split at h <;> cases h
  · rename_i port' _
    split at h
    · cases h
    · rename_i hsmall
      simp only [Bool.or_eq_true, decide_eq_true_eq, not_or, Nat.not_lt] at hsmall
      split at h
      · cases h
      · rename_i hdefault
        cases h
        exact ⟨hsmall.1, hdefault⟩

structure Authority.Canonical (scheme : String) (a : Authority) : Prop where
  username : ∀ c ∈ a.username.toList, inUserSet c = false
  password : ∀ c ∈ a.password.toList, inUserSet c = false
  host : a.host.Canonical
  port : ∀ p, a.port = some p → p ≤ 65535 ∧ defaultPort? scheme ≠ some p

theorem canonical_of_readAuthority (hk : kindOf scheme = .special)
    (h : readAuthority scheme cs = .ok (a, rest)) : a.Canonical scheme := by
  obtain ⟨user?, behind, -, hname, hpassword, hhost, hport⟩ := readAuthority_ok hk h
  refine ⟨?_, ?_, canonical_of_parseHost hhost, ?_⟩
  · rw [hname]
    cases user? with
    | none => simp
    | some user => exact fun c => (not_inUserSet_of_mem_readUser user).1
  · rw [hpassword]
    cases user? with
    | none => simp
    | some user => exact fun c => (not_inUserSet_of_mem_readUser user).2
  · intro p hp
    rw [hp] at hport
    unfold portBehind at hport
    split at hport
    · exact readPort_ok hport
    · cases hport

/-! ## Texts of authorities -/

/-- A user part with the `@` behind it, or nothing. -/
inductive IsUserText : List Char → Prop
  | none : IsUserText []
  | some {user} (hne : user ≠ []) (hc : ∀ c ∈ user, c = ':' ∨ inUserSet c = false) :
      IsUserText (user ++ ['@'])

def portText : Option Nat → List Char
  | some port => ':' :: Nat.toDigits 10 port
  | none => []

/-- User name and password, with a colon between them. -/
def Authority.user (a : Authority) : String :=
  a.username ++ if a.password.isEmpty then "" else ":" ++ a.password

def Authority.userText (a : Authority) : List Char :=
  (if a.user.isEmpty then "" else a.user ++ "@").toList

theorem Authority.toList_text (a : Authority) :
    a.text.toList = a.userText ++ (a.host.text.toList ++ portText a.port) := by
  have hport : (match a.port with
      | some port => ":" ++ toString port
      | none => "").toList = portText a.port := by
    cases a.port with
    | none => rfl
    | some port => simp [portText, Nat.toString_eq_repr, Nat.toList_repr]
  rw [← hport, ← List.append_assoc, userText, ← String.toList_append, ← String.toList_append]
  rfl

theorem Authority.Canonical.isUserText (ha : a.Canonical scheme) : IsUserText a.userText := by
  have huser : ∀ c ∈ a.user.toList, c = ':' ∨ inUserSet c = false := by
    intro c hc
    rw [Authority.user, String.toList_append, List.mem_append] at hc
    rcases hc with hc | hc
    · exact Or.inr (ha.username c hc)
    · split at hc
      · cases hc
      · rw [String.toList_append, List.mem_append] at hc
        rcases hc with hc | hc
        · exact Or.inl (List.mem_singleton.mp hc)
        · exact Or.inr (ha.password c hc)
  unfold Authority.userText
  split
  · exact .none
  · rename_i hne
    rw [String.toList_append]
    refine .some ?_ huser
    simpa using hne

theorem exists_userText (ha : a.Canonical scheme) :
    ∃ user, IsUserText user ∧
      a.text.toList = user ++ (a.host.text.toList ++ portText a.port) :=
  ⟨a.userText, ha.isUserText, a.toList_text⟩

/-! ## Characters of authorities -/

/-- A character that is found in an authority, and does not end it. -/
structure IsAuthorityChar (c : Char) : Prop where
  visible : 0x20 < c.toNat
  inside : endsAuthority .special c = false

theorem IsNameChar.isAuthorityChar {c : Char} (h : IsNameChar c) : IsAuthorityChar c where
  visible := by
    have hallowed := h.allowed
    simp only [isForbiddenInDomain, Bool.or_eq_false_iff, decide_eq_false_iff_not] at hallowed
    omega
  inside := by
    have hslash : c ≠ '/' := h.ne (by decide)
    have hback : c ≠ '\\' := h.ne (by decide)
    have hquery : c ≠ '?' := h.ne (by decide)
    have hfragment : c ≠ '#' := h.ne (by decide)
    simp [endsAuthority, isSlash, hslash, hback, hquery, hfragment]

theorem isAuthorityChar_of_not_inUserSet {c : Char} (h : inUserSet c = false) :
    IsAuthorityChar c where
  visible := by
    have hcontrol : isControl c = false := by
      simp only [inUserSet, inPathSet, inFragmentSet, Bool.or_eq_false_iff] at h
      exact h.1.1.1
    have hspace : c ≠ ' ' := by
      rintro rfl
      cases h
    simp only [isControl, Bool.or_eq_false_iff, decide_eq_false_iff_not] at hcontrol
    have hne : c.toNat ≠ ' '.toNat := fun heq => hspace (Char.toNat_inj.mp heq)
    have hnat : ' '.toNat = 0x20 := rfl
    omega
  inside := by
    have hne : ∀ d, inUserSet d = true → c ≠ d := by
      rintro d hd rfl
      rw [h] at hd
      cases hd
    simp [endsAuthority, isSlash, hne '/' rfl, hne '\\' rfl, hne '?' rfl, hne '#' rfl]

theorem isAuthorityChar_colon : IsAuthorityChar ':' := ⟨by decide, by decide⟩

theorem IsHostText.chars (h : IsHostText cs) :
    ∀ c ∈ cs, c ≠ '@' ∧ IsAuthorityChar c := by
  have hname : ∀ c, IsNameChar c → c ≠ '@' ∧ IsAuthorityChar c :=
    fun c hc => ⟨hc.ne (by decide), hc.isAuthorityChar⟩
  cases h with
  | name _ hcs => exact fun c hc => hname c (hcs c hc)
  | bracketed hcs =>
    intro c hc
    simp only [List.cons_append, List.mem_cons, List.mem_append, List.not_mem_nil, or_false] at hc
    rcases hc with rfl | hc | rfl
    · exact ⟨by decide, by decide, by decide⟩
    · rcases hcs c hc with hc | rfl
      · exact hname c hc
      · exact ⟨by decide, isAuthorityChar_colon⟩
    · exact ⟨by decide, by decide, by decide⟩

theorem portText_chars (port : Option Nat) :
    ∀ c ∈ portText port, c ≠ '@' ∧ IsAuthorityChar c := by
  intro c hc
  cases port with
  | none => cases hc
  | some port =>
    rcases List.mem_cons.mp hc with rfl | hc
    · exact ⟨by decide, isAuthorityChar_colon⟩
    · obtain ⟨d, hd, rfl⟩ := Text.exists_digitChar_of_mem (by omega) hc
      have hchar : IsNameChar (Nat.digitChar d) := isNameChar_digitChar (by omega)
      exact ⟨hchar.ne (by decide), hchar.isAuthorityChar⟩

theorem ne_at_of_mem_user {c : Char} (h : c = ':' ∨ inUserSet c = false) :
    c ≠ '@' ∧ IsAuthorityChar c := by
  rcases h with rfl | h
  · exact ⟨by decide, isAuthorityChar_colon⟩
  · refine ⟨?_, isAuthorityChar_of_not_inUserSet h⟩
    rintro rfl
    cases h

theorem IsUserText.chars (h : IsUserText cs) : ∀ c ∈ cs, IsAuthorityChar c := by
  cases h with
  | none => simp
  | some _ hc =>
    intro c hmem
    rcases List.mem_append.mp hmem with hmem | hmem
    · exact (ne_at_of_mem_user (hc c hmem)).2
    · rw [List.mem_singleton.mp hmem]
      exact ⟨by decide, by decide⟩

theorem IsHostText.ne_nil (h : IsHostText cs) : cs ≠ [] := by
  cases h with
  | name hne _ => exact hne
  | bracketed _ => simp

theorem Authority.Canonical.text_chars (ha : a.Canonical scheme) :
    a.text.toList ≠ [] ∧ ∀ c ∈ a.text.toList, IsAuthorityChar c := by
  obtain ⟨user, hu, htext⟩ := exists_userText ha
  rw [htext]
  constructor
  · simp [ha.host.isHostText.ne_nil]
  · intro c hc
    rcases List.mem_append.mp hc with hc | hc
    · exact hu.chars c hc
    · rcases List.mem_append.mp hc with hc | hc
      · exact (ha.host.isHostText.chars c hc).2
      · exact (portText_chars a.port c hc).2

/-! ## Reading a text once more -/

theorem takeWhile_authority (h : ∀ c ∈ cs, IsAuthorityChar c) (more : List Char) :
    (cs ++ '/' :: more).takeWhile (fun c => !endsAuthority .special c) = cs := by
  have hinside : ∀ c ∈ cs, (!endsAuthority .special c) = true := by
    intro c hc
    rw [(h c hc).inside]
    rfl
  rw [List.takeWhile_append_of_pos hinside, List.takeWhile_cons_of_neg (by decide),
    List.append_nil]

theorem splitUser_text {user behind : List Char} (hu : IsUserText user)
    (hb : ∀ c ∈ behind, c ≠ '@' ∧ IsAuthorityChar c) :
    ∃ user?, splitUser .special (user ++ (behind ++ '/' :: more)) =
      .ok (user?, behind ++ '/' :: more) ∧ user = user?.elim [] (· ++ ['@']) := by
  have hno : '@' ∉ behind := fun hmem => (hb _ hmem).1 rfl
  have hall : ∀ c ∈ user ++ behind, IsAuthorityChar c := by
    intro c hc
    rcases List.mem_append.mp hc with hc | hc
    · exact hu.chars c hc
    · exact (hb c hc).2
  unfold splitUser
  rw [← List.append_assoc, takeWhile_authority hall]
  dsimp only
  cases hu with
  | none =>
    rw [List.nil_append, Text.splitChars_of_not_mem hno]
    exact ⟨none, rfl, rfl⟩
  | @some user hne hc =>
    have huser : '@' ∉ user := fun hmem => (ne_at_of_mem_user (hc _ hmem)).1 rfl
    have hpieces : Text.splitChars '@' (user ++ ['@'] ++ behind) = [user, behind] := by
      rw [List.append_assoc, List.singleton_append, Text.splitChars_append_cons huser,
        Text.splitChars_of_not_mem hno]
    have hdrop : (user ++ ['@'] ++ behind ++ '/' :: more).drop (user.length + 1) =
        behind ++ '/' :: more := by
      rw [List.append_assoc]
      exact List.drop_left' (by simp)
    rw [hpieces]
    refine ⟨some user, ?_, rfl⟩
    simp only [List.dropLast, List.intercalate_singleton, hdrop, List.isEmpty_eq_false_iff.mpr hne,
      Bool.false_and, Bool.false_eq_true, if_false]

theorem hostLength_append {inBrackets : Bool}
    (h : ∀ c ∈ cs, IsNameChar c ∨ c = ':' ∧ inBrackets = true) (rest : List Char) :
    hostLength .special inBrackets (cs ++ rest) =
      cs.length + hostLength .special inBrackets rest := by
  induction cs with
  | nil => rw [List.nil_append, List.length_nil, Nat.zero_add]
  | cons c cs ih =>
    obtain ⟨hc, hcs⟩ := List.forall_mem_cons.mp h
    have hinside : endsAuthority .special c = false := by
      rcases hc with hname | ⟨rfl, -⟩
      · exact hname.isAuthorityChar.inside
      · rfl
    have hcolon : (decide (c = ':') && !inBrackets) = false := by
      rcases hc with hname | ⟨-, hbrackets⟩
      · have hne : c ≠ ':' := hname.ne (by decide)
        simp [hne]
      · simp [hbrackets]
    have hbracket : c ≠ '[' ∧ c ≠ ']' := by
      rcases hc with hname | ⟨rfl, -⟩
      · exact ⟨hname.ne (by decide), hname.ne (by decide)⟩
      · exact ⟨by decide, by decide⟩
    rw [List.cons_append, hostLength]
    simp only [hcolon, hinside, Bool.or_self, Bool.false_eq_true, if_false, hbracket.1, hbracket.2,
      ih hcs, List.length_cons]
    omega

theorem hostLength_text (h : IsHostText cs) {c : Char}
    (hc : c = ':' ∨ endsAuthority .special c = true) :
    hostLength .special false (cs ++ c :: more) = cs.length := by
  have hend : hostLength .special false (c :: more) = 0 := by
    rcases hc with rfl | hc
    · rfl
    · simp [hostLength, hc]
  cases h with
  | name _ hname =>
    rw [hostLength_append fun c hc => Or.inl (hname c hc), hend, Nat.add_zero]
  | @bracketed cs hcs =>
    have hinside : ∀ c ∈ cs, IsNameChar c ∨ c = ':' ∧ true = true :=
      fun c hc => (hcs c hc).imp_right fun heq => ⟨heq, rfl⟩
    have hopen : hostLength .special false ('[' :: (cs ++ ']' :: c :: more)) =
        hostLength .special true (cs ++ ']' :: c :: more) + 1 := rfl
    have hclose : hostLength .special true (']' :: c :: more) = 1 := by
      rw [show hostLength .special true (']' :: c :: more) =
        hostLength .special false (c :: more) + 1 from rfl, hend]
    rw [List.append_assoc, List.singleton_append, List.cons_append, hopen,
      hostLength_append hinside, hclose]
    simp

theorem portBehind_text {port : Option Nat}
    (hport : ∀ p, port = some p → p ≤ 65535 ∧ defaultPort? scheme ≠ some p) :
    portBehind scheme (portText port ++ '/' :: more) = .ok (port, '/' :: more) := by
  cases port with
  | none => rfl
  | some port =>
    obtain ⟨hsmall, hdefault⟩ := hport port rfl
    have hdigits : ∀ c ∈ Nat.toDigits 10 port, c.isDigit = true := Text.isDigit_of_mem_toDigits
    have hspan : (Nat.toDigits 10 port ++ '/' :: more).span Char.isDigit =
        (Nat.toDigits 10 port, '/' :: more) := by
      rw [List.span_eq_takeWhile_dropWhile, List.takeWhile_append_of_pos hdigits,
        List.dropWhile_append_of_pos hdigits]
      simp
    have hlarge : decide (port > 65535) = false := by
      rw [decide_eq_false_iff_not]
      omega
    rw [portText, List.cons_append, portBehind, readPort, hspan]
    simp only [Text.digitsNumber?_toDigits, hlarge, if_neg hdefault]
    rfl

/-- Where the parts of an authority are in its text. -/
theorem Authority.Canonical.splitUser_text (ha : a.Canonical scheme) (more : List Char) :
    ∃ user?, splitUser .special (a.text.toList ++ '/' :: more) =
        .ok (user?, a.host.text.toList ++ (portText a.port ++ '/' :: more)) ∧
      a.userText = user?.elim [] (· ++ ['@']) ∧
      hostLength .special false (a.host.text.toList ++ (portText a.port ++ '/' :: more)) =
        a.host.text.toList.length := by
  have hhostText := ha.host.isHostText
  have hchars : ∀ c ∈ a.host.text.toList ++ portText a.port, c ≠ '@' ∧ IsAuthorityChar c := by
    intro c hc
    rcases List.mem_append.mp hc with hc | hc
    · exact hhostText.chars c hc
    · exact portText_chars a.port c hc
  obtain ⟨user?, hsplit, huser⟩ := Url.splitUser_text ha.isUserText hchars
  obtain ⟨c, behind, hbehind, hc⟩ : ∃ c behind, portText a.port ++ '/' :: more = c :: behind ∧
      (c = ':' ∨ endsAuthority .special c = true) := by
    cases a.port with
    | none => exact ⟨'/', more, rfl, Or.inr rfl⟩
    | some port => exact ⟨':', _, rfl, Or.inl rfl⟩
  refine ⟨user?, ?_, huser, ?_⟩
  · rw [a.toList_text, List.append_assoc, hsplit, List.append_assoc]
  · rw [hbehind]
    exact hostLength_text hhostText hc

/-- Host and port of an authority are those that its text is read as. -/
theorem readAuthority_text (hk : kindOf scheme = .special) (ha : a.Canonical scheme)
    (h : readAuthority scheme (a.text.toList ++ '/' :: more) = .ok (a', rest)) :
    a'.host = a.host ∧ a'.port = a.port ∧ rest = '/' :: more := by
  obtain ⟨user?, behind, huser, -, -, hhost, hport⟩ := readAuthority_ok hk h
  obtain ⟨user', hsplit, -, hlength⟩ := ha.splitUser_text more
  rw [hsplit] at huser
  cases huser
  rw [hlength, List.take_left] at hhost
  rw [hlength, List.drop_left, portBehind_text ha.port] at hport
  obtain ⟨hport, hrest⟩ := Prod.mk.inj (Except.ok.inj hport)
  exact ⟨parseHost_text ha.host hhost, hport.symm, hrest.symm⟩

end ServiceCall.Url
