import ServiceCall.Proofs.Client.Queries

/-!
# Base addresses as prefixes

A route is glued to the end of the base address. Where the base ends with its path, the route goes
on with this path. Behind a query or a fragment it becomes a part of that, and the path stays what
it was.
-/

namespace ServiceCall

namespace Url

variable {base : Url} {c : Char} {cs route segment : List Char} {segments : List (List Char)}

/-! ## Plain routes -/

/-- A character that is never encoded. -/
def isUnreserved (c : Char) : Bool := c.isAlphanum || "-._~".toList.contains c

structure IsPlainSegment (segment : List Char) : Prop where
  nonempty : segment ≠ []
  chars : ∀ c ∈ segment, isUnreserved c = true
  notDot : segment ≠ ['.']
  notDoubleDot : segment ≠ ['.', '.']

/-- A route has one slash between each two of its segments, and any number in front of them. -/
structure IsPlainRoute (segments : List (List Char)) (route : String) : Prop where
  nonempty : segments ≠ []
  plain : ∀ segment ∈ segments, IsPlainSegment segment
  spelled : ∃ slashes, route.toList = List.replicate slashes '/' ++ ['/'].intercalate segments

theorem ascii_of_unreserved (hc : isUnreserved c = true) : c.toNat < 0x80 := by
  rcases Bool.or_eq_true_iff.mp hc with halphanum | hmark
  · rcases Bool.or_eq_true_iff.mp halphanum with halpha | hdigit
    · rcases Bool.or_eq_true_iff.mp halpha with hupper | hlower
      · have hle := UInt32.le_iff_toNat_le.mp (of_decide_eq_true hupper).2
        exact Nat.lt_of_le_of_lt hle (by decide)
      · have hle := UInt32.le_iff_toNat_le.mp
          (of_decide_eq_true (Bool.and_eq_true_iff.mp hlower).2)
        exact Nat.lt_of_le_of_lt hle (by decide)
    · have hle := (Char.isDigit_iff_toNat.mp hdigit).2
      exact Nat.lt_of_le_of_lt hle (by decide)
  · have hmarks : "-._~".toList.all (fun c => decide (c.toNat < 0x80)) = true := by decide
    exact of_decide_eq_true (List.all_eq_true.mp hmarks c (List.contains_iff_mem.mp hmark))

theorem of_unreserved {p : Char → Bool}
    (hall : ∀ n < 0x80, (!isUnreserved (Char.ofNat n) || p (Char.ofNat n)) = true)
    (hc : isUnreserved c = true) : p c = true := by
  have hp := of_ascii (p := fun c => !isUnreserved c || p c) hall (ascii_of_unreserved hc)
  rwa [hc, Bool.not_true, Bool.false_or] at hp

theorem isEncoded_of_unreserved (hc : isUnreserved c = true) :
    IsEncoded inPathSet c ∧ IsEncoded inSpecialQuerySet c ∧ IsEncoded inFragmentSet c := by
  have hp : (!inPathSet c && !inSpecialQuerySet c && !inFragmentSet c) = true :=
    of_unreserved (p := fun c => !inPathSet c && !inSpecialQuerySet c && !inFragmentSet c)
      (by decide +kernel) hc
  simp only [Bool.and_eq_true, Bool.not_eq_true'] at hp
  obtain ⟨⟨hpath, hquery⟩, hfragment⟩ := hp
  have hascii := ascii_of_unreserved hc
  exact ⟨⟨hascii, hpath⟩, ⟨hascii, hquery⟩, ⟨hascii, hfragment⟩⟩

theorem ne_of_unreserved (hc : isUnreserved c = true) : c ≠ '/' ∧ c ≠ '\\' ∧ c ≠ ':' := by
  refine ⟨?_, ?_, ?_⟩ <;>
  · rintro rfl
    exact absurd hc (by decide)

theorem toLower_of_unreserved (hc : isUnreserved c = true) :
    c.toLower ≠ '%' ∧ (c.toLower = '.' → c = '.') := by
  have hp : (decide (c.toLower ≠ '%') && (decide (c.toLower ≠ '.') || decide (c = '.'))) = true :=
    of_unreserved (p := fun c => decide (c.toLower ≠ '%') &&
      (decide (c.toLower ≠ '.') || decide (c = '.'))) (by decide +kernel) hc
  simp only [Bool.and_eq_true, Bool.or_eq_true, decide_eq_true_eq] at hp
  exact ⟨hp.1, fun hdot => hp.2.resolve_left (absurd hdot)⟩

namespace IsPlainSegment

theorem not_mem_lower (h : IsPlainSegment segment) :
    '%' ∉ (Text.lower (String.ofList segment)).toList := by
  rw [Text.lower, String.toList_ofList, String.toList_ofList]
  intro hmem
  obtain ⟨c, hc, hlower⟩ := List.mem_map.mp hmem
  exact (toLower_of_unreserved (h.chars c hc)).1 hlower

theorem eq_dots (h : IsPlainSegment segment) {n : Nat}
    (hn : (Text.lower (String.ofList segment)).toList = List.replicate n '.') :
    segment = List.replicate n '.' := by
  rw [Text.lower, String.toList_ofList, String.toList_ofList, List.eq_replicate_iff,
    List.length_map] at hn
  refine List.eq_replicate_iff.mpr ⟨hn.1, fun c hc => ?_⟩
  exact (toLower_of_unreserved (h.chars c hc)).2 (hn.2 _ (List.mem_map_of_mem hc))

/-- The dot segments that are written in another way have a percent sign. -/
theorem isSegment (h : IsPlainSegment segment) : IsSegment segment := by
  have hescaped : ∀ s : String, '%' ∈ s.toList → Text.lower (String.ofList segment) ≠ s := by
    rintro s hs rfl
    exact h.not_mem_lower hs
  refine ⟨fun c hc => (isEncoded_of_unreserved (h.chars c hc)).1, fun c hc => ?_, ?_, ?_⟩
  · obtain ⟨hslash, hback, -⟩ := ne_of_unreserved (h.chars c hc)
    simp [isSlash, hslash, hback]
  · have hdot : Text.lower (String.ofList segment) ≠ "." :=
      fun heq => h.notDot (h.eq_dots (n := 1) (congrArg String.toList heq))
    rw [isDot, Bool.eq_false_iff, Ne, List.contains_iff_mem]
    simp only [List.mem_cons, List.not_mem_nil, or_false, not_or]
    exact ⟨hdot, hescaped _ (by decide)⟩
  · have hdots : Text.lower (String.ofList segment) ≠ ".." :=
      fun heq => h.notDoubleDot (h.eq_dots (n := 2) (congrArg String.toList heq))
    rw [isDoubleDot, Bool.eq_false_iff, Ne, List.contains_iff_mem]
    simp only [List.mem_cons, List.not_mem_nil, or_false, not_or]
    exact ⟨hdots, hescaped _ (by decide), hescaped _ (by decide), hescaped _ (by decide)⟩

end IsPlainSegment

namespace IsPlainRoute

variable {route : String}

theorem chars (h : IsPlainRoute segments route) :
    ∀ c ∈ ['/'].intercalate segments, c = '/' ∨ isUnreserved c = true := by
  intro c hc
  refine (mem_intercalate hc).imp_right ?_
  rintro ⟨segment, hsegment, hc⟩
  exact (h.plain segment hsegment).chars c hc

theorem splitChars_intercalate (h : IsPlainRoute segments route) :
    Text.splitChars '/' (['/'].intercalate segments) = segments := by
  refine Text.splitChars_intercalate h.nonempty fun segment hsegment hmem => ?_
  exact (ne_of_unreserved ((h.plain segment hsegment).chars _ hmem)).1 rfl

theorem dropWhile_slashes (h : IsPlainRoute segments route) :
    route.toList.dropWhile (· = '/') = ['/'].intercalate segments := by
  obtain ⟨first, rest, rfl⟩ := List.exists_cons_of_ne_nil h.nonempty
  obtain ⟨slashes, hroute⟩ := h.spelled
  have hfirst := h.plain first (List.mem_cons_self ..)
  obtain ⟨c, cs, rfl⟩ := List.exists_cons_of_ne_nil hfirst.nonempty
  have hne := (ne_of_unreserved (hfirst.chars c (List.mem_cons_self ..))).1
  have hslashes : ∀ c ∈ List.replicate slashes '/', decide (c = '/') = true :=
    fun c hc => decide_eq_true (List.eq_of_mem_replicate hc)
  rw [hroute, List.dropWhile_append_of_pos hslashes, List.intercalate_cons_cons_left]
  exact List.dropWhile_cons_of_neg (by simpa using hne)

/-- A route without a colon is no address of its own. -/
theorem parse_eq_relative (h : IsPlainRoute segments route) : parse route = .error .relative := by
  have hchars : ∀ c ∈ route.toList, c = '/' ∨ isUnreserved c = true := by
    obtain ⟨slashes, hroute⟩ := h.spelled
    intro c hc
    rw [hroute] at hc
    rcases List.mem_append.mp hc with hc | hc
    · exact Or.inl (List.eq_of_mem_replicate hc)
    · exact h.chars c hc
  have hvisible : ∀ c ∈ route.toList, 0x20 < c.toNat := by
    intro c hc
    rcases hchars c hc with rfl | hplain
    · decide
    · exact visible_of_inPathSet (isEncoded_of_unreserved hplain).1
  have hcolon : ':' ∉ route.toList := by
    intro hmem
    rcases hchars _ hmem with heq | hplain
    · cases heq
    · exact (ne_of_unreserved hplain).2.2 rfl
  have hscheme : splitScheme? (cleaned route) = none := by
    rw [cleaned_of_visible hvisible]
    unfold splitScheme?
    split
    · rfl
    · split
      · rfl
      · rw [List.span_eq_takeWhile_dropWhile]
        dsimp only
        split
        · rename_i hrest
          have hmem : ':' ∈ route.toList.dropWhile isSchemeChar := by simp [hrest]
          exact absurd ((List.dropWhile_suffix _).mem hmem) hcolon
        · rfl
  unfold parse
  rw [hscheme]

end IsPlainRoute

/-! ## Texts with a route behind them -/

theorem mem_behind (hc : c ∈ behind cs route) : c ∈ cs ∨ c = '/' ∨ c ∈ route := by
  rcases List.mem_append.mp hc with hc | hc
  · exact Or.inl ((Text.dropTrailing_prefix _ cs).mem hc)
  · exact Or.inr (List.mem_cons.mp hc)

theorem mem_splitChars_dropTrailing (cs : List Char) :
    ∀ piece ∈ Text.splitChars '/' (Text.dropTrailing (· = '/') cs),
      piece ∈ Text.splitChars '/' cs := by
  induction cs using List.reverseRecOn with
  | nil => exact fun _ h => h
  | append_singleton cs c ih =>
    by_cases hc : c = '/'
    · subst hc
      have hcut : Text.dropTrailing (· = '/') (cs ++ ['/']) = Text.dropTrailing (· = '/') cs := by
        simp [Text.dropTrailing]
      rw [hcut, Text.splitChars_append]
      exact fun piece h => List.mem_append_left _ (ih piece h)
    · have hkept : Text.dropTrailing (· = '/') (cs ++ [c]) = cs ++ [c] :=
        Text.dropTrailing_append_cons (decide_eq_false hc) cs []
      rw [hkept]
      exact fun _ h => h

/-- A path with a route behind it is a path again. -/
theorem exists_isPath_behind {route : String} (hroute : IsPlainRoute segments route)
    {path : List Char} (hpath : IsPath path) :
    ∃ path', behind ('/' :: path) (['/'].intercalate segments) = '/' :: path' ∧ IsPath path' := by
  obtain ⟨path', hpath'⟩ := exists_behind path (['/'].intercalate segments)
  refine ⟨path', hpath', fun piece hpiece => ?_⟩
  have hmem : piece ∈ Text.splitChars '/' ('/' :: path') := by
    rw [Text.splitChars_cons_self]
    exact List.mem_cons_of_mem _ hpiece
  rw [← hpath', behind, Text.splitChars_append, hroute.splitChars_intercalate] at hmem
  rcases List.mem_append.mp hmem with hmem | hmem
  · have hold := mem_splitChars_dropTrailing _ piece hmem
    rw [Text.splitChars_cons_self] at hold
    rcases List.mem_cons.mp hold with rfl | hold
    · exact isSegment_nil
    · exact hpath piece hold
  · exact (hroute.plain piece hmem).isSegment

/-! ## Addresses with a route behind them -/

/-- An address with a route glued to the end of its text. -/
def glued (base : Url) (route : List Char) : Url :=
  match base.query, base.fragment with
  | none, none => { base with path := String.ofList (behind base.path.toList route) }
  | some q, none => { base with query := some (String.ofList (behind q.toList route)) }
  | _, some f => { base with fragment := some (String.ofList (behind f.toList route)) }

theorem glued_front (base : Url) (route : List Char) :
    (base.glued route).scheme = base.scheme ∧ (base.glued route).authority = base.authority := by
  unfold glued
  split <;> exact ⟨rfl, rfl⟩

theorem glued_path (base : Url) (route : List Char) :
    (base.glued route).path = if base.query = none ∧ base.fragment = none then
      String.ofList (behind base.path.toList route) else base.path := by
  unfold glued
  split <;> simp_all

/-- Glued to the text of an address, a route stands behind its last part. -/
theorem behind_text {a : Authority} (ha : a.Settled base.scheme) (hbase : base.authority = some a)
    (route : List Char) : behind base.text.toList route = (base.glued route).text.toList := by
  obtain ⟨hscheme, hauthority⟩ := glued_front base route
  have hfront (cs : List Char) : base.scheme.toList ++ ':' :: '/' :: '/' :: cs =
      base.scheme.toList ++ [':', '/', '/'] ++ cs := by simp
  rw [toList_text hbase, toList_text (hauthority.trans hbase), hscheme, hfront (a.text.toList ++ _),
    hfront (a.text.toList ++ _), ha.behind_append]
  refine congrArg (fun cs => base.scheme.toList ++ [':', '/', '/'] ++ (a.text.toList ++ cs)) ?_
  unfold glued tailText
  split
  · rename_i hquery hfragment
    simp [hquery, hfragment]
  · rename_i q hquery hfragment
    simpa [hquery, hfragment] using
      behind_append_cons (c := '?') (by decide) base.path.toList q.toList route
  · rename_i f hfragment
    simpa [hfragment] using behind_append_cons (c := '#') (by decide) (base.path.toList ++
      base.query.elim [] fun q => '?' :: q.toList) f.toList route

theorem Canonical.glued {route : String} (hroute : IsPlainRoute segments route)
    (h : base.Canonical) : (base.glued (['/'].intercalate segments)).Canonical := by
  have hbehind : ∀ {set : Char → Bool} {cs : List Char}, (∀ c ∈ cs, IsEncoded set c) →
      IsEncoded set '/' → (∀ c, isUnreserved c = true → IsEncoded set c) →
        ∀ c ∈ (String.ofList (behind cs (['/'].intercalate segments))).toList,
          IsEncoded set c := by
    intro set cs hcs hslash hplain c hc
    rw [String.toList_ofList] at hc
    rcases mem_behind hc with hc | rfl | hc
    · exact hcs c hc
    · exact hslash
    · rcases hroute.chars c hc with rfl | hc
      · exact hslash
      · exact hplain c hc
  have hweb := (isWeb_iff base).mp h.web
  unfold Url.glued
  split
  · obtain ⟨path, hpath, hispath⟩ := h.path
    obtain ⟨path', hpath', hispath'⟩ := exists_isPath_behind hroute hispath
    refine { h with web := (isWeb_iff _).mpr hweb, path := ⟨path', ?_, hispath'⟩ }
    rw [String.toList_ofList, hpath, hpath']
  · rename_i q hq _
    refine { h with web := (isWeb_iff _).mpr hweb, query := fun q' hq' => ?_ }
    rw [← Option.some.inj hq']
    exact hbehind (h.query q hq) ⟨by decide, by decide⟩
      fun c hc => (isEncoded_of_unreserved hc).2.1
  · rename_i f hf
    refine { h with web := (isWeb_iff _).mpr hweb, fragment := fun f' hf' => ?_ }
    rw [← Option.some.inj hf']
    exact hbehind (h.fragment f hf) ⟨by decide, by decide⟩
      fun c hc => (isEncoded_of_unreserved hc).2.2

theorem parse_joinUrl_of_plain {route : String} (hroute : IsPlainRoute segments route)
    (h : base.Canonical) :
    parse (joinUrl base route) = .ok (base.glued (['/'].intercalate segments)) := by
  obtain ⟨a, ha, hsettled⟩ := h.authority
  have hjoined : joinUrl base route = (base.glued (['/'].intercalate segments)).text := by
    rw [← String.toList_inj, toList_joinUrl, hroute.dropWhile_slashes, behind_text hsettled ha]
  rw [hjoined]
  exact (h.glued hroute).parse_text

end Url

/-! ## Targets with a prefix -/

namespace Client

variable {settings : Settings} {client : Client} {request : Request} {base url : Url}
  {target : Target} {segments : List (List Char)}

theorem address_of_plain (hbuild : settings.build = .ok client)
    (hbase : client.baseUrl = some base) (hroute : Url.IsPlainRoute segments request.url) :
    client.address request = .ok (base.glued (['/'].intercalate segments)) := by
  obtain ⟨text, hparse, hweb⟩ := exists_base hbuild hbase
  unfold address
  rw [hroute.parse_eq_relative]
  dsimp only
  rw [hbase]
  dsimp only
  rw [Url.parse_joinUrl_of_plain hroute (Url.canonical_of_parse hparse hweb)]
  rfl

/-- There is a target unless the address is too long for one, or its host has a character that no
target has. -/
theorem exists_target_iff (haddress : client.address request = .ok url)
    (hweb : url.isWeb = true) : (∃ target, client.target request = .ok target) ↔
      (url.withPairs request.query).text.utf8ByteSize ≤ Http.Uri.maxLength ∧
        ∃ a, url.authority = some a ∧
          ∀ c ∈ a.host.text.toList, Http.Uri.isAuthorityChar c = true := by
  have hcanonical := canonical_of_address haddress hweb
  obtain ⟨a, ha, -⟩ := hcanonical.authority
  obtain ⟨-, hauthority, -⟩ := Url.withPairs_front url request.query
  have hpairs := hcanonical.withPairs request.query
  have hparse := Http.Uri.parse_text hpairs (hauthority.trans ha)
  have htarget : (∃ target, client.target request = .ok target) ↔
      ∃ uri, Http.Uri.parse (url.withPairs request.query).text = .ok uri := by
    unfold Client.target
    rw [haddress]
    dsimp only [bind, Except.bind]
    rw [hpairs.web]
    cases Http.Uri.parse (url.withPairs request.query).text with
    | ok uri => exact ⟨fun _ => ⟨uri, rfl⟩, fun _ => ⟨_, rfl⟩⟩
    | error problem => exact ⟨by rintro ⟨_, ⟨⟩⟩, by rintro ⟨_, ⟨⟩⟩⟩
  rw [htarget, hparse, ha]
  simp only [Option.some.injEq, exists_eq_left', ← List.all_eq_true]
  split
  · rename_i hlong
    exact ⟨by rintro ⟨_, ⟨⟩⟩, fun h => absurd h.1 (Nat.not_le.mpr hlong)⟩
  · rename_i hshort
    split
    · rename_i hchars
      exact ⟨fun _ => ⟨Nat.not_lt.mp hshort, hchars⟩, fun _ => ⟨_, rfl⟩⟩
    · rename_i hchars
      exact ⟨by rintro ⟨_, ⟨⟩⟩, fun h => absurd h.2 hchars⟩

/-- A route of plain segments goes on with the path of the base, behind one slash, if the base has
neither a query nor a fragment. Behind these it is lost for the path. -/
theorem target_of_plain (hbuild : settings.build = .ok client)
    (hbase : client.baseUrl = some base) (hroute : Url.IsPlainRoute segments request.url) :
    ∃ url, client.address request = .ok url ∧
      url.path = (if base.query = none ∧ base.fragment = none then
        String.ofList (Url.behind base.path.toList (['/'].intercalate segments)) else base.path) ∧
      (∀ target, client.target request = .ok target → target.uri.path = url.path) ∧
      ((∃ target, client.target request = .ok target) ↔
        (url.withPairs request.query).text.utf8ByteSize ≤ Http.Uri.maxLength ∧
          ∃ a, base.authority = some a ∧
            ∀ c ∈ a.host.text.toList, Http.Uri.isAuthorityChar c = true) := by
  have haddress := address_of_plain hbuild hbase hroute
  obtain ⟨text, hparse, hweb⟩ := exists_base hbuild hbase
  have hcanonical := (Url.canonical_of_parse hparse hweb).glued hroute
  refine ⟨_, haddress, Url.glued_path base _, ?_, ?_⟩
  · intro target htarget
    obtain ⟨a, -, huri⟩ := uri_of_target haddress htarget
    rw [huri]
  · rw [exists_target_iff haddress hcanonical.web, (Url.glued_front base _).2]

/-- The settings of a client with a base of which more than one slash ends the path. -/
def nested : Settings :=
  { Settings.standard with baseUrl := some "http://u:p@svc.test:8080/v1//" }

/-- Slashes at the end of the base and at the front of the route make no difference. -/
theorem target_of_plain_of_nested : ∃ client base request target,
    nested.build = .ok client ∧ client.baseUrl = some base ∧
      ((RequestDraft.new .get "//users/{}").addParam "5").build = .ok request ∧
      Url.IsPlainRoute ["users".toList, "5".toList] request.url ∧
      client.target request = .ok target ∧ target.uri.path = "/v1/users/5" := by
  have hrun : (do
      let client ← nested.build
      let request ← ((RequestDraft.new .get "//users/{}").addParam "5").build
      let target ← client.target request
      return (client.baseUrl, request.url, target.uri.scheme) : Except CallError _).toOption =
        some (some ⟨"http", some ⟨"u", "p", .name "svc.test", some 8080⟩, "/v1//", none, none⟩,
          "//users/5", some "http") := by
    decide +kernel
  obtain ⟨client, hclient, hrun⟩ := exists_of_bind_ok (eq_ok_of_toOption hrun)
  obtain ⟨request, hrequest, hrun⟩ := exists_of_bind_ok hrun
  obtain ⟨target, htarget, hrun⟩ := exists_of_bind_ok hrun
  obtain ⟨hbase, hrun⟩ := Prod.mk.inj (Except.ok.inj hrun)
  obtain ⟨hurl, -⟩ := Prod.mk.inj hrun
  have hroute : Url.IsPlainRoute ["users".toList, "5".toList] request.url := by
    refine ⟨by decide, ?_, 2, by rw [hurl]; decide⟩
    simp only [List.forall_mem_cons, List.not_mem_nil, false_imp_iff, implies_true, and_true]
    exact ⟨⟨by decide, List.all_eq_true.mp (by decide), by decide, by decide⟩,
      ⟨by decide, List.all_eq_true.mp (by decide), by decide, by decide⟩⟩
  obtain ⟨url, -, hpath, htargets, -⟩ := target_of_plain hclient hbase hroute
  refine ⟨client, _, request, target, hclient, hbase, hrequest, hroute, htarget, ?_⟩
  rw [htargets target htarget, hpath]
  decide

/-- The settings of a client with a base that ends in a fragment. -/
def fragmented : Settings := { Settings.standard with baseUrl := some "http://svc.test/v1#top" }

/-- Behind a fragment the route is lost: the request goes to the path of the base. -/
theorem plain_route_is_lost : ∃ client base request target,
    fragmented.build = .ok client ∧ client.baseUrl = some base ∧
      (RequestDraft.new .get "/users").build = .ok request ∧
      Url.IsPlainRoute ["users".toList] request.url ∧
      client.target request = .ok target ∧ target.uri.path = "/v1" ∧
      String.ofList (Url.behind base.path.toList (['/'].intercalate ["users".toList])) =
        "/v1/users" := by
  have hrun : (do
      let client ← fragmented.build
      let request ← (RequestDraft.new .get "/users").build
      let target ← client.target request
      return (client.baseUrl, request.url, target.uri.path) : Except CallError _).toOption =
        some (some ⟨"http", some ⟨"", "", .name "svc.test", none⟩, "/v1", none, some "top"⟩,
          "/users", "/v1") := by
    decide +kernel
  obtain ⟨client, hclient, hrun⟩ := exists_of_bind_ok (eq_ok_of_toOption hrun)
  obtain ⟨request, hrequest, hrun⟩ := exists_of_bind_ok hrun
  obtain ⟨target, htarget, hrun⟩ := exists_of_bind_ok hrun
  obtain ⟨hbase, hrun⟩ := Prod.mk.inj (Except.ok.inj hrun)
  obtain ⟨hurl, hpath⟩ := Prod.mk.inj hrun
  refine ⟨client, _, request, target, hclient, hbase, hrequest, ⟨by decide, ?_, 1, ?_⟩, htarget,
    hpath, by decide⟩
  · rw [List.forall_mem_singleton]
    exact ⟨by decide, List.all_eq_true.mp (by decide), by decide, by decide⟩
  · rw [hurl]
    decide

end Client

end ServiceCall
