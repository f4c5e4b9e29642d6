import ServiceCall.Client.Target
import ServiceCall.Proofs.Url.Authorities

/-!
# Routes behind a base address

An address that is glued together of a base and a route leads where the base leads, if it can be
read at all.
-/

namespace ServiceCall

namespace Url

variable {cs rest : List Char} {s : String} {url base : Url}

/-! ## Web addresses -/

theorem isWeb_iff (url : Url) : url.isWeb = true ↔ url.scheme = "http" ∨ url.scheme = "https" := by
  simp [isWeb]

theorem kindOf_web (h : url.isWeb = true) : kindOf url.scheme = .special := by
  rcases (isWeb_iff url).mp h with h | h <;> rw [h] <;> rfl

theorem splitScheme?_web (h : url.isWeb = true) (rest : List Char) :
    splitScheme? (url.scheme.toList ++ ':' :: rest) = some (url.scheme, rest) := by
  rcases (isWeb_iff url).mp h with h | h <;> rw [h] <;> rfl

/-! ## Cleaning -/

/-- What stands in front of a visible character stays if it is visible too. -/
theorem cleaned_append {front : List Char} (hfront : ∀ c ∈ front, 0x20 < c.toNat) {c : Char}
    (hc : 0x20 < c.toNat) (rest : List Char) :
    ∃ rest', cleaned (String.ofList (front ++ c :: rest)) = front ++ c :: rest' := by
  have hedge : ∀ {c : Char}, 0x20 < c.toNat → decide (c.toNat ≤ 0x20) = false := by
    intro c hc
    rw [decide_eq_false_iff_not]
    omega
  have hbreak : ∀ {c : Char}, 0x20 < c.toNat →
      (decide (c ≠ '\t') && decide (c ≠ '\n') && decide (c ≠ '\r')) = true := by
    intro c hc
    have hne : ∀ d : Char, d.toNat ≤ 0x20 → c ≠ d := by
      rintro d hd rfl
      omega
    simp [hne '\t' (by decide), hne '\n' (by decide), hne '\r' (by decide)]
  have hstart : (front ++ c :: rest).dropWhile (fun c => decide (c.toNat ≤ 0x20)) =
      front ++ c :: rest := by
    cases front with
    | nil => exact List.dropWhile_cons_of_neg (by simp [hedge hc])
    | cons d front =>
      exact List.dropWhile_cons_of_neg (by simp [hedge (hfront d (List.mem_cons_self ..))])
  have hend := Text.dropTrailing_append_cons (p := fun c => decide (c.toNat ≤ 0x20)) (hedge hc)
    front rest
  unfold cleaned
  simp only [String.toList_ofList, hstart, hend]
  rw [List.filter_append, List.filter_cons, if_pos (hbreak hc),
    List.filter_eq_self.mpr fun d hd => hbreak (hfront d hd)]
  exact ⟨_, rfl⟩

/-! ## The parts of an address -/

theorem afterSlashes_scheme {scheme : String} (h : afterSlashes scheme cs = .ok url) :
    url.scheme = scheme := by
  obtain ⟨⟨a, behind⟩, ha, h⟩ := exists_of_bind_ok h
  cases h
  rfl

theorem exists_readPath (kind : SchemeKind) (cs : List Char) :
    ∃ path, (readPath kind cs).toList = '/' :: path :=
  ⟨_, String.toList_ofList⟩

theorem afterSlashes_ok {scheme : String} (hk : kindOf scheme = .special)
    (h : afterSlashes scheme cs = .ok url) :
    ∃ a behind path, readAuthority scheme cs = .ok (a, behind) ∧
      url.authority = some a ∧ url.path.toList = '/' :: path := by
  obtain ⟨⟨a, behind⟩, ha, h⟩ := exists_of_bind_ok h
  obtain ⟨path, hpath⟩ := exists_readPath .special (dropSlash .special (splitPath behind).1)
  rw [hk] at h
  cases h
  exact ⟨a, behind, path, ha, rfl, hpath⟩

theorem parseFile_scheme (h : parseFile cs = .ok url) : url.scheme = "file" := by
  unfold parseFile at h
  dsimp only at h
  split at h
  · split at h
    · obtain ⟨⟨host, behind⟩, -, h⟩ := exists_of_bind_ok h
      cases h
      rfl
    · cases h
      rfl
  · cases h
    rfl

/-- An address of the web is what is read behind its scheme and the slashes. -/
theorem exists_afterSlashes (h : parse s = .ok url) (hweb : url.isWeb = true) :
    ∃ rest, splitScheme? (cleaned s) = some (url.scheme, rest) ∧
      afterSlashes url.scheme (rest.dropWhile (isSlash .special)) = .ok url := by
  have hkind := kindOf_web hweb
  unfold parse at h
  split at h
  · cases h
  · rename_i scheme rest hscheme
    split at h
    · rw [parseFile_scheme h] at hkind
      cases hkind
    · have hsame := afterSlashes_scheme h
      rw [hsame]
      exact ⟨rest, hscheme, h⟩
    · rename_i hk
      have hsame : url.scheme = scheme := by
        split at h
        · exact afterSlashes_scheme h
        · cases h
          rfl
      rw [hsame, hk] at hkind
      cases hkind

/-- An address of the web has an authority, and a path behind it. -/
theorem parse_web (h : parse s = .ok url) (hweb : url.isWeb = true) :
    ∃ rest a behind path, splitScheme? (cleaned s) = some (url.scheme, rest) ∧
      readAuthority url.scheme (rest.dropWhile (isSlash .special)) = .ok (a, behind) ∧
        url.authority = some a ∧ url.path.toList = '/' :: path := by
  obtain ⟨rest, hscheme, hread⟩ := exists_afterSlashes h hweb
  obtain ⟨a, behind, path, ha, hauthority, hpath⟩ := afterSlashes_ok (kindOf_web hweb) hread
  exact ⟨rest, a, behind, path, hscheme, ha, hauthority, hpath⟩

theorem exists_text {a : Authority} {path : List Char} (ha : url.authority = some a)
    (hpath : url.path.toList = '/' :: path) :
    ∃ more, url.text.toList = url.scheme.toList ++ ':' :: '/' :: '/' ::
      (a.text.toList ++ '/' :: more) := by
  obtain ⟨tail, htail⟩ : ∃ tail, url.text =
      url.scheme ++ ":" ++ ("//" ++ a.text) ++ url.path ++ tail := by
    unfold text
    rw [ha]
    exact ⟨_, String.append_assoc⟩
  refine ⟨path ++ tail.toList, ?_⟩
  simp [htail, hpath]

/-! ## Base and route -/

/-- A text with a route behind it, and one slash between the two. -/
def behind (cs route : List Char) : List Char := Text.dropTrailing (· = '/') cs ++ '/' :: route

theorem toList_joinUrl (base : Url) (route : String) : (joinUrl base route).toList =
    behind base.text.toList (route.toList.dropWhile (· = '/')) :=
  String.toList_ofList

theorem behind_append_cons {c : Char} (hc : c ≠ '/') (xs ys route : List Char) :
    behind (xs ++ c :: ys) route = xs ++ c :: behind ys route := by
  unfold behind
  rw [Text.dropTrailing_append_cons (decide_eq_false hc), List.append_assoc, List.cons_append]

/-- All that is cut of a path are slashes, and one is put in their place. -/
theorem exists_behind (path route : List Char) :
    ∃ path', behind ('/' :: path) route = '/' :: path' := by
  obtain ⟨tail, htail⟩ := Text.dropTrailing_prefix (· = '/') ('/' :: path)
  unfold behind
  cases hcut : Text.dropTrailing (· = '/') ('/' :: path) with
  | nil => exact ⟨_, rfl⟩
  | cons c cs =>
    rw [hcut, List.cons_append] at htail
    obtain ⟨rfl, -⟩ := List.cons.inj htail
    exact ⟨_, rfl⟩

/-- The base keeps what stands in front of its path. -/
theorem Authority.Canonical.behind_append {a : Authority} {scheme : String}
    (ha : a.Canonical scheme) (front more route : List Char) :
    behind (front ++ (a.text.toList ++ more)) route =
      front ++ (a.text.toList ++ behind more route) := by
  obtain ⟨hne, hchars⟩ := ha.text_chars
  obtain ⟨text, last, htext⟩ := (List.eq_nil_or_concat' a.text.toList).resolve_left hne
  have hlast : last ≠ '/' := by
    rintro rfl
    have hslash := (hchars '/' (by rw [htext]; simp)).inside
    cases hslash
  rw [htext]
  simpa using behind_append_cons hlast (front ++ text) more route

theorem exists_joinUrl {a : Authority} {front more : List Char} (ha : a.Canonical base.scheme)
    (hbase : base.text.toList = front ++ (a.text.toList ++ '/' :: more)) (route : String) :
    ∃ more', (joinUrl base route).toList = front ++ (a.text.toList ++ '/' :: more') := by
  obtain ⟨more', hmore⟩ := exists_behind more (route.toList.dropWhile (· = '/'))
  exact ⟨more', by rw [toList_joinUrl, hbase, ha.behind_append, hmore]⟩

theorem parse_of_special {scheme : String} (hs : splitScheme? (cleaned s) = some (scheme, rest))
    (hk : kindOf scheme = .special) :
    parse s = afterSlashes scheme (rest.dropWhile (isSlash .special)) := by
  unfold parse
  rw [hs]
  simp only [hk]

theorem dropWhile_slashes {a : Authority} {scheme : String} (ha : a.Canonical scheme)
    (more : List Char) :
    ('/' :: '/' :: (a.text.toList ++ more)).dropWhile (isSlash .special) =
      a.text.toList ++ more := by
  obtain ⟨hne, hchars⟩ := ha.text_chars
  obtain ⟨c, text, htext⟩ := List.exists_cons_of_ne_nil hne
  have hinside := (hchars c (by rw [htext]; simp)).inside
  have hslash : isSlash .special c = false := by
    simp only [endsAuthority, Bool.or_eq_false_iff] at hinside
    exact hinside.1.1
  rw [List.dropWhile_cons_of_pos rfl, List.dropWhile_cons_of_pos rfl, htext, List.cons_append,
    List.dropWhile_cons_of_neg (by simp [hslash])]

/-- The address that a route is glued into leads where the base does. -/
theorem parse_joinUrl (hbase : parse s = .ok base) (hweb : base.isWeb = true) {route : String}
    (h : parse (joinUrl base route) = .ok url) :
    ∃ a a' path, base.authority = some a ∧ url.authority = some a' ∧
      url.scheme = base.scheme ∧ a'.Canonical base.scheme ∧ a'.host = a.host ∧
        a'.port = a.port ∧ url.path.toList = '/' :: path := by
  have hk := kindOf_web hweb
  obtain ⟨_, a, _, _, -, hread, hauthority, hpath⟩ := parse_web hbase hweb
  have ha := canonical_of_readAuthority hk hread
  obtain ⟨more, htext⟩ := exists_text hauthority hpath
  have hfront : base.text.toList =
      (base.scheme.toList ++ [':', '/', '/']) ++ (a.text.toList ++ '/' :: more) := by
    simpa using htext
  obtain ⟨more', hjoined⟩ := exists_joinUrl ha hfront route
  -- All in front of the path is visible, so none of it gets lost.
  have hscheme : ∀ c ∈ base.scheme.toList ++ [':', '/', '/'], 0x20 < c.toNat := by
    rw [← List.all_iff_forall_prop]
    rcases (isWeb_iff base).mp hweb with hs | hs <;> rw [hs] <;> decide
  have hvisible : ∀ c ∈ base.scheme.toList ++ [':', '/', '/'] ++ a.text.toList,
      0x20 < c.toNat := by
    intro c hc
    rcases List.mem_append.mp hc with hc | hc
    · exact hscheme c hc
    · exact (ha.text_chars.2 c hc).visible
  obtain ⟨more'', hcleaned⟩ := cleaned_append (c := '/') hvisible (by decide) more'
  rw [List.append_assoc, ← hjoined, String.ofList_toList] at hcleaned
  have hsplit : splitScheme? (cleaned (joinUrl base route)) =
      some (base.scheme, '/' :: '/' :: (a.text.toList ++ '/' :: more'')) := by
    rw [hcleaned, ← splitScheme?_web hweb]
    simp
  rw [parse_of_special hsplit hk, dropWhile_slashes ha] at h
  obtain ⟨a', behind, path, hread', hauthority', hpath'⟩ := afterSlashes_ok hk h
  obtain ⟨hhost, hport, -⟩ := readAuthority_text hk ha hread'
  exact ⟨a, a', path, hauthority, hauthority', afterSlashes_scheme h,
    canonical_of_readAuthority hk hread', hhost, hport, hpath'⟩

end Url

end ServiceCall
