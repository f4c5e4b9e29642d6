import ServiceCall.Proofs.Url.Joining
import ServiceCall.Proofs.Url.Rereading

/-!
# Addresses that stay as they are

An address of the web that was read is canonical: its text is read, and as this address.
-/

namespace ServiceCall.Url

/-! ## Authorities -/

/-- An authority that its text is read as. -/
structure Authority.Settled (scheme : String) (a : Authority) : Prop
    extends a.Canonical scheme where
  usernameAscii : ∀ c ∈ a.username.toList, c.toNat < 0x80
  passwordAscii : ∀ c ∈ a.password.toList, c.toNat < 0x80
  hostRead : parseHost a.host.text.toList = .ok a.host

section

variable {scheme : String} {cs rest more : List Char} {a : Authority}

theorem settled_of_readAuthority (hk : kindOf scheme = .special)
    (h : readAuthority scheme cs = .ok (a, rest)) : a.Settled scheme := by
  obtain ⟨user?, behind, -, hname, hpassword, hhost, -⟩ := readAuthority_ok hk h
  have hencoded : ∀ {cs : List Char}, ∀ c ∈ (String.ofList (encode inUserSet cs)).toList,
      c.toNat < 0x80 := by
    intro cs c hc
    rw [String.toList_ofList] at hc
    exact (isEncoded_of_mem_encode rfl (by decide) hc).ascii
  refine ⟨canonical_of_readAuthority hk h, ?_, ?_, parseHost_of_parseHost hhost⟩
  · rw [hname]
    cases user? with
    | none => simp
    | some user => exact hencoded
  · rw [hpassword]
    cases user? with
    | none => simp
    | some user => exact hencoded

theorem Authority.Settled.readUser (h : a.Settled scheme) :
    readUser a.user.toList = (a.username, a.password) := by
  have hname : ∀ c ∈ a.username.toList, decide (c ≠ ':') = true := by
    intro c hc
    refine decide_eq_true ?_
    rintro rfl
    have hin := h.username _ hc
    cases hin
  have hencode : ∀ {s : String}, (∀ c ∈ s.toList, inUserSet c = false) →
      (∀ c ∈ s.toList, c.toNat < 0x80) → String.ofList (encode inUserSet s.toList) = s := by
    intro s hset hascii
    rw [encode_of_encoded fun c hc => ⟨hascii c hc, hset c hc⟩, String.ofList_toList]
  have hspan : a.user.toList.span (· ≠ ':') =
      (a.username.toList, if a.password.isEmpty then [] else ':' :: a.password.toList) := by
    rw [List.span_eq_takeWhile_dropWhile, Authority.user, String.toList_append,
      List.takeWhile_append_of_pos hname, List.dropWhile_append_of_pos hname]
    split
    · simp
    · simp
  have hpassword : (if a.password.isEmpty then [] else ':' :: a.password.toList).drop 1 =
      a.password.toList := by
    split
    · rename_i hempty
      rw [String.isEmpty_iff.mp hempty]
      rfl
    · rfl
  unfold Url.readUser
  rw [hspan]
  dsimp only
  rw [hpassword, hencode h.username h.usernameAscii, hencode h.password h.passwordAscii]

theorem readAuthority_of_parts {behind : List Char} {user? : Option (List Char)} {host : Host}
    {port : Option Nat} (hk : kindOf scheme = .special)
    (huser : splitUser .special cs = .ok (user?, behind))
    (hne : behind.take (hostLength .special false behind) ≠ [])
    (hhost : parseHost (behind.take (hostLength .special false behind)) = .ok host)
    (hfull : host ≠ .empty)
    (hport : portBehind scheme (behind.drop (hostLength .special false behind)) =
      .ok (port, rest)) :
    Url.readAuthority scheme cs = .ok (⟨(user?.elim ("", "") Url.readUser).1,
      (user?.elim ("", "") Url.readUser).2, host, port⟩, rest) := by
  have hempty : decide (host = .empty) = false := decide_eq_false hfull
  unfold Url.readAuthority
  rw [hk]
  dsimp only
  rw [huser]
  dsimp only [bind, Except.bind]
  rw [if_neg (by simpa using hne), if_pos rfl, hhost]
  dsimp only
  rw [if_neg (by simp [hempty])]
  cases user? with
  | none => exact behindHost_of_portBehind hfull hport
  | some user => exact behindHost_of_portBehind hfull hport

/-- An authority is what its text is read as. -/
theorem Authority.Settled.readAuthority (hk : kindOf scheme = .special) (h : a.Settled scheme)
    (more : List Char) :
    readAuthority scheme (a.text.toList ++ '/' :: more) = .ok (a, '/' :: more) := by
  obtain ⟨user?, hsplit, huser, hlength⟩ := h.splitUser_text more
  have hnames : user?.elim ("", "") Url.readUser = (a.username, a.password) := by
    unfold Authority.userText at huser
    cases user? with
    | none =>
      split at huser
      · rename_i hempty
        have hnone : a.user.toList = [] := by rw [String.isEmpty_iff.mp hempty]; rfl
        rw [← h.readUser, hnone]
        rfl
      · simp at huser
    | some user =>
      split at huser
      · simp at huser
      · rw [String.toList_append] at huser
        rw [← h.readUser, List.append_cancel_right huser]
        rfl
  have hfull : a.host ≠ .empty := by
    intro hempty
    have hhost := h.host
    rw [hempty] at hhost
    exact hhost
  have hread : Url.readAuthority scheme (a.text.toList ++ '/' :: more) =
      .ok (⟨(user?.elim ("", "") Url.readUser).1, (user?.elim ("", "") Url.readUser).2, a.host,
        a.port⟩, '/' :: more) := by
    refine readAuthority_of_parts hk hsplit ?_ ?_ hfull ?_
    · rw [hlength, List.take_left]
      exact h.host.isHostText.ne_nil
    · rw [hlength, List.take_left]
      exact h.hostRead
    · rw [hlength, List.drop_left]
      exact portBehind_text h.port
  rwa [hnames] at hread

end

/-! ## Paths -/

/-- A segment that a path keeps. -/
structure IsSegment (segment : List Char) : Prop where
  encoded : ∀ c ∈ segment, IsEncoded inPathSet c
  inside : ∀ c ∈ segment, isSlash .special c = false
  notDot : isDot segment = false
  notDoubleDot : isDoubleDot segment = false

/-- Characters behind the first slash of a path that keeps its segments. -/
def IsPath (cs : List Char) : Prop := ∀ segment ∈ Text.splitChars '/' cs, IsSegment segment

theorem isSegment_nil : IsSegment [] :=
  ⟨List.forall_mem_nil _, List.forall_mem_nil _, by decide, by decide⟩

section

variable {cs : List Char} {keep : List Char → Bool} {segments done : List (List Char)}

theorem resolveFrom_of_segments (h : ∀ segment ∈ segments, IsSegment segment) :
    resolveFrom keep done segments = segments.reverse ++ done := by
  induction segments generalizing done with
  | nil => rfl
  | cons segment rest ih =>
    obtain ⟨hsegment, hrest⟩ := List.forall_mem_cons.mp h
    cases rest with
    | nil =>
      rw [resolveFrom, hsegment.notDoubleDot, hsegment.notDot]
      rfl
    | cons next rest =>
      rw [resolveFrom, hsegment.notDoubleDot, hsegment.notDot, if_neg Bool.false_ne_true,
        if_neg Bool.false_ne_true, ih hrest, @List.reverse_cons _ segment, List.append_assoc,
        List.singleton_append]
      simp

theorem isSegment_of_mem_dropped (hdone : ∀ segment ∈ done, IsSegment segment) :
    ∀ segment ∈ resolveFrom.dropped keep done, IsSegment segment := by
  cases done with
  | nil => exact hdone
  | cons last done =>
    rw [resolveFrom.dropped]
    split
    · exact hdone
    · exact (List.forall_mem_cons.mp hdone).2

/-- Of segments that are encoded, the path keeps those that are no dot segments. -/
theorem isSegment_of_mem_resolveFrom (hdone : ∀ segment ∈ done, IsSegment segment)
    (h : ∀ segment ∈ segments, ∀ c ∈ segment, IsEncoded inPathSet c ∧ isSlash .special c = false) :
    ∀ segment ∈ resolveFrom keep done segments, IsSegment segment := by
  have hpush : ∀ {segment done}, (∀ c ∈ segment, IsEncoded inPathSet c ∧
      isSlash .special c = false) → ¬isDoubleDot segment = true → ¬isDot segment = true →
      (∀ segment ∈ done, IsSegment segment) →
        ∀ other ∈ segment :: done, IsSegment other := by
    intro segment done hchars hdouble hdot hdone
    refine List.forall_mem_cons.mpr ⟨⟨fun c hc => (hchars c hc).1, fun c hc => (hchars c hc).2, ?_,
      ?_⟩, hdone⟩
    · simpa using hdot
    · simpa using hdouble
  fun_induction resolveFrom keep done segments with
  | case1 done => exact hdone
  | case2 done last hdouble =>
    exact List.forall_mem_cons.mpr ⟨isSegment_nil, isSegment_of_mem_dropped hdone⟩
  | case3 done last hdouble hdot => exact List.forall_mem_cons.mpr ⟨isSegment_nil, hdone⟩
  | case4 done last hdouble hdot =>
    exact hpush (h last (List.mem_cons_self ..)) hdouble hdot hdone
  | case5 done segment rest hne hdouble ih =>
    exact ih (isSegment_of_mem_dropped hdone) (List.forall_mem_cons.mp h).2
  | case6 done segment rest hne hdouble hdot ih => exact ih hdone (List.forall_mem_cons.mp h).2
  | case7 done segment rest hne hdouble hdot ih =>
    obtain ⟨hsegment, hrest⟩ := List.forall_mem_cons.mp h
    exact ih (hpush hsegment hdouble hdot hdone) hrest

theorem resolveFrom_ne_nil (h : segments ≠ []) : resolveFrom keep done segments ≠ [] := by
  fun_induction resolveFrom keep done segments with
  | case1 done => contradiction
  | case2 => simp
  | case3 => simp
  | case4 => simp
  | case5 done segment rest hne hdouble ih => exact ih hne
  | case6 done segment rest hne hdouble hdot ih => exact ih hne
  | case7 done segment rest hne hdouble hdot ih => exact ih hne

theorem IsPath.chars (h : IsPath cs) {c : Char} (hc : c ∈ cs) :
    c = '/' ∨ IsEncoded inPathSet c ∧ isSlash .special c = false := by
  rw [← Text.intercalate_splitChars '/' cs] at hc
  refine (mem_intercalate hc).imp_right ?_
  rintro ⟨segment, hsegment, hc⟩
  exact ⟨(h segment hsegment).encoded c hc, (h segment hsegment).inside c hc⟩

theorem isPath_readPath (cs : List Char) :
    ∃ path, (readPath .special cs).toList = '/' :: path ∧ IsPath path := by
  have hchars : ∀ segment ∈ (segmentsOf .special cs).map (encode inPathSet), ∀ c ∈ segment,
      IsEncoded inPathSet c ∧ isSlash .special c = false := by
    intro segment hsegment c hc
    obtain ⟨piece, hpiece, rfl⟩ := List.mem_map.mp hsegment
    refine ⟨isEncoded_of_mem_encode rfl (by decide) hc, ?_⟩
    rcases mem_encode hc with ⟨hmem, -⟩ | rfl | ⟨n, hn, rfl⟩
    · have hne : c ≠ '/' := by
        rintro rfl
        exact Text.not_mem_of_mem_splitChars hpiece hmem
      obtain ⟨d, -, hd⟩ := List.mem_map.mp (Text.mem_of_mem_splitChars hpiece hmem)
      split at hd
      · exact absurd hd.symm hne
      · rename_i hslash
        rw [← hd]
        exact Bool.eq_false_iff.mpr hslash
    · decide
    · have hdigit : ∀ n < 16, isSlash .special (Text.upperHexDigit n) = false := by decide
      exact hdigit n hn
  have hsegments : ∀ segment ∈ resolve (fun _ => false)
      ((segmentsOf .special cs).map (encode inPathSet)), IsSegment segment := by
    intro segment hsegment
    exact isSegment_of_mem_resolveFrom (List.forall_mem_nil _) hchars segment
      (List.mem_reverse.mp hsegment)
  have hne : resolve (fun _ => false) ((segmentsOf .special cs).map (encode inPathSet)) ≠ [] := by
    intro hnil
    refine resolveFrom_ne_nil ?_ (List.reverse_eq_nil_iff.mp hnil)
    rw [Ne, List.map_eq_nil_iff]
    exact Text.splitChars_ne_nil _ _
  have hinside : ∀ segment ∈ resolve (fun _ => false)
      ((segmentsOf .special cs).map (encode inPathSet)), '/' ∉ segment := by
    intro segment hsegment hmem
    have hslash := (hsegments segment hsegment).inside '/' hmem
    cases hslash
  refine ⟨_, String.toList_ofList, ?_⟩
  unfold IsPath
  rwa [Text.splitChars_intercalate hne hinside]

/-- A path that keeps its segments is read as itself. -/
theorem readPath_of_isPath (h : IsPath cs) :
    readPath .special cs = String.ofList ('/' :: cs) := by
  have hslashes : cs.map (fun c => if isSlash .special c then '/' else c) = cs := by
    refine (List.map_congr_left fun c hc => ?_).trans (List.map_id cs)
    rcases h.chars hc with rfl | ⟨-, hslash⟩
    · rfl
    · rw [hslash]
      rfl
  have hencoded : (Text.splitChars '/' cs).map (encode inPathSet) = Text.splitChars '/' cs := by
    refine (List.map_congr_left fun segment hsegment => ?_).trans (List.map_id _)
    exact encode_of_encoded (h segment hsegment).encoded
  unfold readPath segmentsOf resolve
  rw [hslashes, hencoded, resolveFrom_of_segments h, List.append_nil, List.reverse_reverse,
    segmentsText, Text.intercalate_splitChars]

end

/-! ## Queries and fragments -/

/-- What stands behind a path. -/
def tailText (query fragment : Option String) : List Char :=
  query.elim [] (fun q => '?' :: q.toList) ++ fragment.elim [] fun f => '#' :: f.toList

section

variable {query fragment : Option String}

theorem readTail_encoded (cs : List Char) :
    (∀ q ∈ (readTail .special cs).1, ∀ c ∈ q.toList, IsEncoded inSpecialQuerySet c) ∧
      ∀ f ∈ (readTail .special cs).2, ∀ c ∈ f.toList, IsEncoded inFragmentSet c := by
  unfold readTail
  dsimp only
  constructor
  · intro q hq c hc
    split at hq
    · cases hq
      rw [String.toList_ofList] at hc
      exact isEncoded_of_mem_encode rfl (by decide) hc
    · cases hq
  · intro f hf c hc
    split at hf
    · cases hf
      rw [String.toList_ofList] at hc
      exact isEncoded_of_mem_encode rfl (by decide) hc
    · cases hf

theorem readTail_tailText (hquery : ∀ q ∈ query, ∀ c ∈ q.toList, IsEncoded inSpecialQuerySet c)
    (hfragment : ∀ f ∈ fragment, ∀ c ∈ f.toList, IsEncoded inFragmentSet c) :
    readTail .special (tailText query fragment) = (query, fragment) := by
  have hspan : (tailText query fragment).span (· ≠ '#') =
      (query.elim [] (fun q => '?' :: q.toList), fragment.elim [] fun f => '#' :: f.toList) := by
    have hfront : ∀ c ∈ query.elim [] (fun q => '?' :: q.toList), decide (c ≠ '#') = true := by
      cases query with
      | none => exact List.forall_mem_nil _
      | some q =>
        refine List.forall_mem_cons.mpr ⟨by decide, fun c hc => decide_eq_true ?_⟩
        exact (hquery q rfl c hc).ne rfl
    rw [List.span_eq_takeWhile_dropWhile, tailText, List.takeWhile_append_of_pos hfront,
      List.dropWhile_append_of_pos hfront]
    cases fragment <;> simp
  unfold readTail
  rw [hspan]
  dsimp only
  refine Prod.ext ?_ ?_
  · cases query with
    | none => rfl
    | some q =>
      refine congrArg some ?_
      rw [if_neg (by decide), encode_of_encoded (hquery q rfl), String.ofList_toList]
  · cases fragment with
    | none => rfl
    | some f =>
      refine congrArg some ?_
      rw [encode_of_encoded (hfragment f rfl), String.ofList_toList]

end

/-! ## Whole addresses -/

/-- An address of the web that its text is read as. -/
structure Canonical (url : Url) : Prop where
  web : url.isWeb = true
  authority : ∃ a, url.authority = some a ∧ a.Settled url.scheme
  path : ∃ path, url.path.toList = '/' :: path ∧ IsPath path
  query : ∀ q ∈ url.query, ∀ c ∈ q.toList, IsEncoded inSpecialQuerySet c
  fragment : ∀ f ∈ url.fragment, ∀ c ∈ f.toList, IsEncoded inFragmentSet c

section

variable {url : Url} {a : Authority}

theorem toList_text (ha : url.authority = some a) :
    url.text.toList = url.scheme.toList ++ ':' :: '/' :: '/' ::
      (a.text.toList ++ (url.path.toList ++ tailText url.query url.fragment)) := by
  unfold text tailText
  rw [ha]
  cases url.query <;> cases url.fragment <;> simp

theorem canonical_of_parse {s : String} (h : parse s = .ok url) (hweb : url.isWeb = true) :
    url.Canonical := by
  have hk := kindOf_web hweb
  obtain ⟨rest, -, hread⟩ := exists_afterSlashes h hweb
  obtain ⟨⟨a, behind⟩, ha, hread⟩ := exists_of_bind_ok hread
  rw [hk] at hread
  have hurl : withTail .special ⟨url.scheme, some a,
      readPath .special (dropSlash .special (splitPath behind).1), none, none⟩
        (splitPath behind).2 = url := Except.ok.inj hread
  have htail := readTail_encoded (splitPath behind).2
  have hquery : (readTail .special (splitPath behind).2).1 = url.query := congrArg Url.query hurl
  have hfragment : (readTail .special (splitPath behind).2).2 = url.fragment :=
    congrArg Url.fragment hurl
  have hpath : readPath .special (dropSlash .special (splitPath behind).1) = url.path :=
    congrArg Url.path hurl
  rw [hquery, hfragment] at htail
  exact {
    web := hweb
    authority := ⟨a, (congrArg Url.authority hurl).symm, settled_of_readAuthority hk ha⟩
    path := hpath ▸ isPath_readPath _
    query := htail.1
    fragment := htail.2 }

/-! ## Their texts -/

theorem visible_of_inPathSet {c : Char} (h : IsEncoded inPathSet c) : 0x20 < c.toNat :=
  h.visible (fun c hc => by simp [inPathSet, inFragmentSet, hc]) rfl

theorem Canonical.path_chars (h : url.Canonical) {c : Char} (hc : c ∈ url.path.toList) :
    c = '/' ∨ IsEncoded inPathSet c := by
  obtain ⟨path, hpath, hispath⟩ := h.path
  rw [hpath] at hc
  rcases List.mem_cons.mp hc with rfl | hc
  · exact Or.inl rfl
  · exact (hispath.chars hc).imp_right And.left

theorem Canonical.tail_chars (h : url.Canonical) {c : Char}
    (hc : c ∈ tailText url.query url.fragment) :
    c = '?' ∨ c = '#' ∨ IsEncoded inSpecialQuerySet c ∨ IsEncoded inFragmentSet c := by
  rcases List.mem_append.mp hc with hc | hc
  · cases hquery : url.query with
    | none =>
      rw [hquery] at hc
      cases hc
    | some q =>
      rw [hquery] at hc
      rcases List.mem_cons.mp hc with rfl | hc
      · exact Or.inl rfl
      · exact Or.inr (Or.inr (Or.inl (h.query q hquery c hc)))
  · cases hfragment : url.fragment with
    | none =>
      rw [hfragment] at hc
      cases hc
    | some f =>
      rw [hfragment] at hc
      rcases List.mem_cons.mp hc with rfl | hc
      · exact Or.inr (Or.inl rfl)
      · exact Or.inr (Or.inr (Or.inr (h.fragment f hfragment c hc)))

theorem visible_of_web (hweb : url.isWeb = true) :
    ∀ c ∈ url.scheme.toList ++ [':', '/', '/'], 0x20 < c.toNat := by
  rw [← List.all_iff_forall_prop]
  rcases (isWeb_iff url).mp hweb with hs | hs <;> rw [hs] <;> decide

theorem Canonical.visible (h : url.Canonical) : ∀ c ∈ url.text.toList, 0x20 < c.toNat := by
  obtain ⟨a, ha, hsettled⟩ := h.authority
  have htext : url.text.toList = url.scheme.toList ++ [':', '/', '/'] ++
      (a.text.toList ++ (url.path.toList ++ tailText url.query url.fragment)) := by
    rw [toList_text ha]
    simp
  intro c hc
  rw [htext] at hc
  rcases List.mem_append.mp hc with hc | hc
  · exact visible_of_web h.web c hc
  · rcases List.mem_append.mp hc with hc | hc
    · exact (hsettled.text_chars.2 c hc).visible
    · rcases List.mem_append.mp hc with hc | hc
      · rcases h.path_chars hc with rfl | hpath
        · decide
        · exact visible_of_inPathSet hpath
      · rcases h.tail_chars hc with rfl | rfl | hquery | hfragment
        · decide
        · decide
        · exact hquery.visible (fun c hc => by simp [inSpecialQuerySet, inQuerySet, hc]) rfl
        · exact hfragment.visible (fun c hc => by simp [inFragmentSet, hc]) rfl

theorem cleaned_of_visible {s : String} (h : ∀ c ∈ s.toList, 0x20 < c.toNat) :
    cleaned s = s.toList := by
  have hedge : ∀ c ∈ s.toList, ¬decide (c.toNat ≤ 0x20) = true := by
    intro c hc
    have hvisible := h c hc
    rw [decide_eq_true_eq]
    omega
  have hkept : ∀ {cs : List Char}, (∀ c ∈ cs, ¬decide (c.toNat ≤ 0x20) = true) →
      cs.dropWhile (fun c => decide (c.toNat ≤ 0x20)) = cs := by
    intro cs hcs
    cases cs with
    | nil => rfl
    | cons c cs => exact List.dropWhile_cons_of_neg (hcs c (List.mem_cons_self ..))
  unfold cleaned Text.dropTrailing
  dsimp only
  rw [hkept hedge, hkept (by simpa using hedge), List.reverse_reverse, List.filter_eq_self]
  intro c hc
  have hne : ∀ d : Char, d.toNat ≤ 0x20 → c ≠ d := by
    rintro d hd rfl
    have hvisible := h c hc
    omega
  simp [hne '\t' (by decide), hne '\n' (by decide), hne '\r' (by decide)]

theorem splitPath_append {path tail : List Char} (hpath : ∀ c ∈ path, c ≠ '?' ∧ c ≠ '#')
    (htail : ∀ c, tail.head? = some c → c = '?' ∨ c = '#') :
    splitPath (path ++ tail) = (path, tail) := by
  let inside (c : Char) : Bool := c ≠ '?' && c ≠ '#'
  have hinside : ∀ c ∈ path, inside c = true := fun c hc => by simp [inside, hpath c hc]
  change (path ++ tail).span inside = _
  rw [List.span_eq_takeWhile_dropWhile, List.takeWhile_append_of_pos hinside,
    List.dropWhile_append_of_pos hinside]
  cases tail with
  | nil => simp
  | cons c tail =>
    have hstop : ¬inside c = true := by
      rcases htail c rfl with rfl | rfl <;> decide
    rw [List.takeWhile_cons_of_neg hstop, List.dropWhile_cons_of_neg hstop, List.append_nil]

theorem head?_tailText {query fragment : Option String} {c : Char}
    (h : (tailText query fragment).head? = some c) : c = '?' ∨ c = '#' := by
  cases query with
  | some q =>
    cases h
    exact Or.inl rfl
  | none =>
    cases fragment with
    | some f =>
      cases h
      exact Or.inr rfl
    | none => cases h

theorem Canonical.splitPath_text (h : url.Canonical) :
    splitPath (url.path.toList ++ tailText url.query url.fragment) =
      (url.path.toList, tailText url.query url.fragment) := by
  refine splitPath_append (fun c hc => ?_) fun c => head?_tailText
  rcases h.path_chars hc with rfl | hencoded
  · decide
  · exact ⟨hencoded.ne rfl, hencoded.ne rfl⟩

/-- An address of the web is what its text is read as. -/
theorem Canonical.parse_text (h : url.Canonical) : parse url.text = .ok url := by
  obtain ⟨a, ha, hsettled⟩ := h.authority
  obtain ⟨path, hpath, hispath⟩ := h.path
  have hk := kindOf_web h.web
  have htext := toList_text ha
  have hscheme : splitScheme? (cleaned url.text) = some (url.scheme, '/' :: '/' ::
      (a.text.toList ++ (url.path.toList ++ tailText url.query url.fragment))) := by
    rw [cleaned_of_visible h.visible, htext, splitScheme?_web h.web]
  have hauthority := hsettled.readAuthority hk (path ++ tailText url.query url.fragment)
  rw [← List.cons_append, ← hpath] at hauthority
  have hread : readPath .special (dropSlash .special url.path.toList) = url.path := by
    rw [hpath]
    change readPath .special path = url.path
    rw [readPath_of_isPath hispath, ← hpath, String.ofList_toList]
  rw [parse_of_special hscheme hk, dropWhile_slashes hsettled.toCanonical]
  unfold afterSlashes
  rw [hk, hauthority]
  dsimp only [bind, Except.bind]
  rw [h.splitPath_text]
  dsimp only
  rw [if_neg (by simp), hread, withTail, readTail_tailText h.query h.fragment, ← ha]
  rfl

end

end ServiceCall.Url
