import ServiceCall.Proofs.Call.Drafts
import ServiceCall.Proofs.Text.Unicode

/-!
# What becomes of the header values that are given

Every header value that settings give is sent, in its place among the values of its name, unless
the name is `Cookie` and there are cookies as well: these make up the only `Cookie` line.
-/

namespace ServiceCall

open Http

/-- The value is there under the name, in any case; one of a `Cookie` may also be a part of a
longer line. -/
def Http.Headers.Shows (h : Headers) (name value : String) : Prop :=
  .ofVisible value ∈ h.getAll ⟨Text.lower name⟩ ∨
    Text.lower name = "cookie" ∧ ∃ line ∈ h.getAll .cookie, Bytes.ofString value <:+: line.bytes

theorem Http.mem_valuesUnder {fields : List (String × String)} {name value : String}
    (h : (name, value) ∈ fields) : .ofVisible value ∈ valuesUnder fields ⟨Text.lower name⟩ :=
  List.mem_filterMap.mpr ⟨(name, value), h, if_pos rfl⟩

theorem Http.Headers.shows_cookie_iff {h : Headers} {name value line : String}
    (hname : Text.lower name = "cookie") (hline : h.getAll .cookie = [.ofVisible line]) :
    h.Shows name value ↔ Bytes.ofString value <:+: Bytes.ofString line := by
  have hcookie : (⟨Text.lower name⟩ : HeaderName) = .cookie := congrArg HeaderName.mk hname
  unfold Shows
  rw [hcookie, hline]
  constructor
  · rintro (hmem | ⟨-, line', hmem, hinfix⟩)
    · have hbytes : Bytes.ofString value = Bytes.ofString line :=
        congrArg HeaderValue.bytes (List.mem_singleton.mp hmem)
      exact hbytes ▸ List.infix_rfl
    · obtain rfl := List.mem_singleton.mp hmem
      exact hinfix
  · intro hinfix
    exact Or.inr ⟨hname, _, List.mem_singleton_self _, hinfix⟩

namespace RequestDraft

/-! ## The line of the cookies -/

theorem exists_intercalate (sep : String) {piece : String} {pieces : List String}
    (h : piece ∈ pieces) : ∃ before after, sep.intercalate pieces = before ++ piece ++ after := by
  induction pieces with
  | nil => cases h
  | cons first rest ih =>
    cases rest with
    | nil => exact ⟨"", "", by simp [List.mem_singleton.mp h]⟩
    | cons second rest =>
      rw [String.intercalate_cons_cons]
      rcases List.mem_cons.mp h with rfl | hrest
      · exact ⟨"", sep ++ sep.intercalate (second :: rest), by simp [String.append_assoc]⟩
      · obtain ⟨before, after, heq⟩ := ih hrest
        exact ⟨first ++ sep ++ before, after, by rw [heq]; simp only [String.append_assoc]⟩

theorem cookieLine_infix {pairs : List (String × String)} {n v : String} (h : (n, v) ∈ pairs) :
    Bytes.ofString (n ++ "=" ++ v) <:+: Bytes.ofString (cookieLine pairs) := by
  have hline : ∃ before after, cookieLine pairs = before ++ (n ++ "=" ++ v) ++ after :=
    exists_intercalate "; " (List.mem_map_of_mem h)
  obtain ⟨before, after, heq⟩ := hline
  rw [heq, Utf8.ofString_append _ after, Utf8.ofString_append before]
  exact List.infix_append ..

/-! ## The headers of a draft -/

variable (d : RequestDraft)

theorem getAll_withContentType (h : Headers) {name : HeaderName} (hname : name ≠ .contentType) :
    (d.withContentType h).getAll name = h.getAll name := by
  unfold withContentType
  split
  · rw [Headers.getAll_insert, if_neg hname.symm]
  · rfl

theorem getAll_cookie_sentHeaders :
    d.sentHeaders.getAll .cookie =
      if d.cookies = [] then valuesUnder d.headers .cookie else [.ofVisible d.cookieText] := by
  unfold sentHeaders withCookies
  rw [getAll_withContentType d _ (by decide)]
  by_cases hnone : d.cookies = []
  · rw [if_pos hnone, if_pos (List.isEmpty_iff.mpr hnone)]
    exact Headers.getAll_ofFields d.headers .cookie
  · rw [if_neg hnone, if_neg (mt List.isEmpty_iff.mp hnone), Headers.getAll_insert, if_pos rfl]

/-! ## Drafts made of settings -/

variable {method : Method} {route : String} {settings : List Setting} {r : Request}

theorem Setting.filterMap_cookie?_eq_nil_iff :
    settings.filterMap Setting.cookie? = [] ↔ ∀ n v, Setting.cookie n v ∉ settings := by
  rw [Setting.filterMap_eq_nil_iff (c := fun p : String × String => Setting.cookie p.1 p.2)]
  · exact Prod.forall
  · intro s
    cases s <;> simp [Setting.cookie?, Prod.forall]

theorem Setting.mem_filterMap_cookie? {n v : String} :
    (n, v) ∈ settings.filterMap Setting.cookie? ↔ Setting.cookie n v ∈ settings :=
  Setting.mem_filterMap_iff fun s => by cases s <;> simp [Setting.cookie?]

theorem getAll_cookie_of_build (h : (drafted method route settings).build = .ok r) :
    r.headers.getAll .cookie =
      if settings.filterMap Setting.cookie? = [] then
        valuesUnder (settings.filterMap Setting.header?) .cookie
      else [.ofVisible (cookieLine (settings.filterMap Setting.cookie?))] := by
  rw [eq_described_of_build h, described, getAll_cookie_sentHeaders, drafted_eq]
  rfl

theorem valuesUnder_prefix (h : (drafted method route settings).build = .ok r)
    (name : HeaderName) (hname : name = .cookie → settings.filterMap Setting.cookie? = []) :
    valuesUnder (settings.filterMap Setting.header?) name <+: r.headers.getAll name := by
  by_cases hcookie : name = .cookie
  · subst hcookie
    have hsent := getAll_cookie_of_build h
    rw [if_pos (hname rfl)] at hsent
    exact hsent ▸ List.prefix_rfl
  · rw [eq_described_of_build h, described, getAll_sentHeaders _ hcookie, drafted_eq]
    exact List.prefix_append _ _

theorem shows_iff (h : (drafted method route settings).build = .ok r) {name value : String}
    (hgiven : .header name value ∈ settings) :
    r.headers.Shows name value ↔
      (Text.lower name = "cookie" → settings.filterMap Setting.cookie? = [] ∨
        Bytes.ofString value <:+:
          Bytes.ofString (cookieLine (settings.filterMap Setting.cookie?))) := by
  have hkept (hname : Text.lower name = "cookie" → settings.filterMap Setting.cookie? = []) :
      r.headers.Shows name value := by
    have hmem := mem_valuesUnder (Setting.mem_filterMap_header?.mpr hgiven)
    have hsent := valuesUnder_prefix h ⟨Text.lower name⟩
      fun heq => hname (congrArg HeaderName.text heq)
    exact Or.inl (hsent.subset hmem)
  by_cases hline : Text.lower name = "cookie" ∧ settings.filterMap Setting.cookie? ≠ []
  · obtain ⟨hname, hsome⟩ := hline
    have hcookie := getAll_cookie_of_build h
    rw [if_neg hsome] at hcookie
    rw [Headers.shows_cookie_iff hname hcookie]
    simp [hname, hsome]
  · have hname (hc : Text.lower name = "cookie") : settings.filterMap Setting.cookie? = [] := by
      by_contra hsome
      exact hline ⟨hc, hsome⟩
    exact ⟨fun _ hc => Or.inl (hname hc), fun _ => hkept hname⟩

/-- Every given value is sent, in its place among those of its name, but for the values of a
`Cookie` when there are cookies: the line of the cookies replaces them. Every cookie is sent. -/
theorem given_values_kept (h : (drafted method route settings).build = .ok r) :
    (∀ name value, .header name value ∈ settings →
      (r.headers.Shows name value ↔
        (Text.lower name = "cookie" → (∀ n v, .cookie n v ∉ settings) ∨
          Bytes.ofString value <:+:
            Bytes.ofString (cookieLine (settings.filterMap Setting.cookie?))))) ∧
    (∀ name, (name = .cookie → ∀ n v, .cookie n v ∉ settings) →
      valuesUnder (settings.filterMap Setting.header?) name <+: r.headers.getAll name) ∧
    ((∃ n v, .cookie n v ∈ settings) →
      r.headers.getAll .cookie =
        [.ofVisible (cookieLine (settings.filterMap Setting.cookie?))]) ∧
    ∀ n v, .cookie n v ∈ settings →
      ∃ line ∈ r.headers.getAll .cookie, Bytes.ofString (n ++ "=" ++ v) <:+: line.bytes := by
  simp only [← Setting.filterMap_cookie?_eq_nil_iff]
  have hone {n v : String} (hcookie : .cookie n v ∈ settings) : r.headers.getAll .cookie =
      [.ofVisible (cookieLine (settings.filterMap Setting.cookie?))] := by
    have hsome : settings.filterMap Setting.cookie? ≠ [] :=
      List.ne_nil_of_mem (Setting.mem_filterMap_cookie?.mpr hcookie)
    rw [getAll_cookie_of_build h, if_neg hsome]
  refine ⟨fun name value => shows_iff h, valuesUnder_prefix h, ?_, ?_⟩
  · rintro ⟨n, v, hcookie⟩
    exact hone hcookie
  · intro n v hcookie
    rw [hone hcookie]
    exact ⟨_, List.mem_singleton_self _,
      cookieLine_infix (Setting.mem_filterMap_cookie?.mpr hcookie)⟩

/-- A value for the `Cookie` header and a cookie, and two values for one name. -/
def mixed : List Setting :=
  [.header "Cookie" "a=1", .cookie "n" "v", .header "X-Tag" "x", .header "x-tag" "y"]

theorem given_values_kept_of_mixed :
    ∃ r, (drafted .get "/me" mixed).build = .ok r ∧ r.headers.Shows "X-Tag" "x" ∧
      [.ofVisible "x", .ofVisible "y"] <+: r.headers.getAll ⟨"x-tag"⟩ ∧
      r.headers.getAll .cookie = [.ofVisible "n=v"] := by
  obtain ⟨r, hr⟩ : ∃ r, (drafted .get "/me" mixed).build = .ok r := ⟨_, rfl⟩
  obtain ⟨hshows, hgiven, hcookie, -⟩ := given_values_kept hr
  refine ⟨r, hr, (hshows "X-Tag" "x" (by simp [mixed])).mpr ?_, ?_, ?_⟩
  · intro h
    exact absurd h (by decide)
  · exact hgiven ⟨"x-tag"⟩ fun h => absurd h (by decide)
  · exact hcookie ⟨"n", "v", by simp [mixed]⟩

/-- The value that is given for the `Cookie` is not sent. -/
theorem given_cookie_is_lost :
    .header "Cookie" "a=1" ∈ mixed ∧
      ∃ r, (drafted .get "/me" mixed).build = .ok r ∧ ¬ r.headers.Shows "Cookie" "a=1" := by
  obtain ⟨r, hr⟩ : ∃ r, (drafted .get "/me" mixed).build = .ok r := ⟨_, rfl⟩
  refine ⟨by simp [mixed], r, hr, ?_⟩
  have hcookie : r.headers.getAll .cookie = [.ofVisible "n=v"] := getAll_cookie_of_build hr
  rw [Headers.shows_cookie_iff (by decide) hcookie]
  decide

end RequestDraft

end ServiceCall
