import ServiceCall.Proofs.Call.Checks
import ServiceCall.Proofs.Url.Joining

/-!
# Where relative routes lead

A route that begins with a slash is sent to the host and the port of the base address, whatever
its parameters and the query are.
-/

namespace ServiceCall

namespace Http.Uri

/-! ## The authority of a request target -/

variable {text scheme : String} {name more : List Char} {uri : Uri}

theorem splitScheme_web (h : scheme = "http" ∨ scheme = "https") (rest : List Char) :
    splitScheme (scheme.toList ++ ':' :: '/' :: '/' :: rest) = .ok (some scheme, rest) := by
  have hchars : ∀ c ∈ scheme.toList, isSchemeChar c = true := by
    rw [← List.all_eq_true]
    rcases h with rfl | rfl <;> decide
  have hlower : Text.lower scheme = scheme := by
    rcases h with rfl | rfl <;> decide
  have hname : (scheme.toList ++ ':' :: '/' :: '/' :: rest).takeWhile isSchemeChar =
      scheme.toList := by
    rw [List.takeWhile_append_of_pos hchars, List.takeWhile_cons_of_neg (by decide),
      List.append_nil]
  have hknown : (decide (scheme = "http") || decide (scheme = "https")) = true := by
    simpa using h
  unfold splitScheme
  simp only [hname, List.drop_left, String.ofList_toList, hlower, hknown, if_true]

theorem splitAuthority_ok {cs rest : List Char} (h : splitAuthority cs = .ok (name, rest)) :
    name = cs.takeWhile fun c => !endsAuthority c := by
  unfold splitAuthority at h
  rw [List.span_eq_takeWhile_dropWhile] at h
  obtain ⟨scan, -, h⟩ := exists_of_bind_ok h
  split at h
  · cases h
  · cases h
    rfl

theorem endsAuthority_of_url {kind : Url.SchemeKind} {c : Char}
    (h : Url.endsAuthority kind c = false) : endsAuthority c = false := by
  simp only [Url.endsAuthority, Url.isSlash, Bool.or_eq_false_iff] at h
  obtain ⟨⟨⟨hslash, -⟩, hquestion⟩, hhash⟩ := h
  simp only [endsAuthority, hslash, hquestion, hhash, Bool.or_self]

/-- What a text is read as that begins with the scheme of the web. -/
theorem parse_of_scheme {rest : List Char} (hs : scheme = "http" ∨ scheme = "https")
    (htext : text.toList = scheme.toList ++ ':' :: '/' :: '/' :: rest) :
    parse text = if text.utf8ByteSize > maxLength then .error .tooLong else do
      let (name, rest) ← splitAuthority rest
      if name.isEmpty then .error .shape
      let (path, query) ← splitPath rest
      return ⟨some scheme, some (String.ofList name), path, query⟩ := by
  have hsplit := splitScheme_web hs rest
  obtain ⟨c, d, cs, hcs, hc⟩ : ∃ c d cs, text.toList = c :: d :: cs ∧ c ≠ '/' := by
    rw [htext]
    rcases hs with rfl | rfl
    · exact ⟨'h', 't', _, rfl, by decide⟩
    · exact ⟨'h', 't', _, rfl, by decide⟩
  rw [← htext, hcs] at hsplit
  unfold parse
  rw [hcs]
  split
  · rename_i heq
    cases heq
  · rename_i heq
    cases heq
  · rename_i heq
    cases heq
  · rename_i heq
    exact absurd (List.cons.inj heq).1 hc
  · rename_i heq
    cases heq
  · rw [hsplit]
    rfl

/-- A target in the absolute form has the scheme and the authority of its text. -/
theorem parse_web (hs : scheme = "http" ∨ scheme = "https")
    (hname : ∀ c ∈ name, endsAuthority c = false)
    (htext : text.toList = scheme.toList ++ ':' :: '/' :: '/' :: (name ++ '/' :: more))
    (h : parse text = .ok uri) :
    uri.scheme = some scheme ∧ uri.authority = some (String.ofList name) := by
  have hauthority : (name ++ '/' :: more).takeWhile (fun c => !endsAuthority c) = name := by
    have hinside : ∀ c ∈ name, (!endsAuthority c) = true := by
      intro c hc
      rw [hname c hc]
      rfl
    rw [List.takeWhile_append_of_pos hinside, List.takeWhile_cons_of_neg (by decide),
      List.append_nil]
  rw [parse_of_scheme hs htext] at h
  split at h
  · cases h
  · obtain ⟨⟨name', rest⟩, hname', h⟩ := exists_of_bind_ok h
    dsimp only at h
    split at h
    · cases h
    · obtain ⟨⟨path, query⟩, -, h⟩ := exists_of_bind_ok h
      cases h
      rw [splitAuthority_ok hname', hauthority]
      exact ⟨rfl, rfl⟩

theorem destination_web (hs : scheme = "http" ∨ scheme = "https")
    (h : uri.scheme = some scheme) :
    uri.destination = uri.host ++ ":" ++
      toString (uri.port?.getD (if scheme = "https" then 443 else 80)) := by
  unfold destination isSecure
  rw [h]
  rcases hs with rfl | rfl <;> rfl

/-! ## Host and port -/

section

open Url

variable {user hostText : List Char} {port : Option Nat}

theorem host_text (hu : IsUserText user) (hh : IsHostText hostText)
    (ha : uri.authority = some (String.ofList (user ++ (hostText ++ portText port)))) :
    uri.host = String.ofList hostText := by
  have hno : '@' ∉ hostText ++ portText port := by
    intro hmem
    rcases List.mem_append.mp hmem with hmem | hmem
    · exact (hh.chars _ hmem).1 rfl
    · exact (portText_chars port _ hmem).1 rfl
  have hbehind : uri.hostAndPort = hostText ++ portText port := by
    unfold hostAndPort
    simp only [ha, String.toList_ofList]
    cases hu with
    | none => rw [List.nil_append, Text.splitChars_of_not_mem hno]; rfl
    | some _ _ =>
      rw [List.append_assoc, List.singleton_append, Text.splitChars_append,
        Text.splitChars_of_not_mem hno, List.getLast?_concat]
      rfl
  unfold host
  rw [hbehind]
  cases hh with
  | name hne hname =>
    have hcolon : (hostText ++ portText port).takeWhile (· ≠ ':') = hostText := by
      have hkept : ∀ c ∈ hostText, decide (c ≠ ':') = true :=
        fun c hc => decide_eq_true ((hname c hc).ne (by decide))
      rw [List.takeWhile_append_of_pos hkept]
      cases port <;> simp [portText]
    split
    · rename_i cs hbracket
      obtain ⟨c, rest, rfl⟩ := List.exists_cons_of_ne_nil hne
      obtain ⟨rfl, -⟩ := List.cons.inj hbracket
      exact absurd rfl ((hname '[' (List.mem_cons_self ..)).ne (by decide))
    · rw [hcolon]
  | @bracketed cs hcs =>
    have hkept : ∀ c ∈ cs, decide (c ≠ ']') = true := by
      intro c hc
      rcases hcs c hc with hname | rfl
      · exact decide_eq_true (hname.ne (by decide))
      · rfl
    rw [List.append_assoc, List.cons_append, List.singleton_append]
    simp only
    rw [List.takeWhile_append_of_pos hkept, List.takeWhile_cons_of_neg (by simp), List.append_nil]

theorem port?_some {front : List Char} {n : Nat} (hn : n ≤ 65535)
    (ha : uri.authority = some (String.ofList (front ++ ':' :: Nat.toDigits 10 n))) :
    uri.port? = some n := by
  have hno : ':' ∉ Nat.toDigits 10 n := Text.not_mem_toDigits (by omega) (by decide)
  unfold port?
  simp only [ha, Option.getD_some, String.toList_ofList, Text.splitChars_append,
    Text.splitChars_of_not_mem hno]
  have hne := Text.splitChars_ne_nil ':' front
  split
  · rename_i heq
    simp at heq
  · rename_i heq
    have hlength := congrArg List.length heq
    rw [List.length_append, List.length_singleton, List.length_singleton] at hlength
    exact absurd (List.length_eq_zero_iff.mp (by omega)) hne
  · rw [List.getLast?_concat, Option.getD_some, Text.numberBelow?_toDigits (by omega)]

/-- What stands behind the last colon is no number if it has another character at its end. -/
theorem port?_none {front behind : List Char} {c : Char} (hno : ':' ∉ behind) (hc : c ∈ behind)
    (hdigit : c.isDigit = false) (hplus : c ≠ '+')
    (ha : uri.authority = some (String.ofList (front ++ behind))) : uri.port? = none := by
  obtain ⟨piece, hlast⟩ := Text.getLast?_splitChars_append front hno
  unfold port?
  simp only [ha, Option.getD_some, String.toList_ofList]
  split
  · rfl
  · rfl
  · rw [hlast, Option.getD_some]
    exact Text.numberBelow?_eq_none (List.mem_append_right _ hc) hdigit hplus

theorem port?_text (hu : IsUserText user) (hh : IsHostText hostText)
    (hport : ∀ p, port = some p → p ≤ 65535)
    (ha : uri.authority = some (String.ofList (user ++ (hostText ++ portText port)))) :
    uri.port? = port := by
  cases port with
  | some n =>
    rw [portText, ← List.append_assoc] at ha
    exact port?_some (hport n rfl) ha
  | none =>
    rw [portText, List.append_nil] at ha
    cases hh with
    | @bracketed cs _ =>
      rw [← List.append_assoc] at ha
      exact port?_none (by decide) (List.mem_singleton_self _) (by decide) (by decide) ha
    | name _ hname =>
      have hno : ':' ∉ hostText := fun hmem => (hname _ hmem).ne (by decide) rfl
      cases hu with
      | none =>
        unfold port?
        simp only [ha, Option.getD_some, String.toList_ofList, List.nil_append,
          Text.splitChars_of_not_mem hno]
      | @some name _ _ =>
        rw [List.append_assoc] at ha
        refine port?_none (c := '@') ?_ (List.mem_cons_self ..) (by decide) (by decide) ha
        simp [hno]

end

end Http.Uri

/-! ## Routes behind a slash -/

theorem Route.exists_fill {c : Char} {cs : List Char} (hc : c ≠ '\x7b')
    (params : List (List Char)) :
    ∃ more, fill (pieces (c :: cs)) params = c :: more := by
  obtain ⟨piece, more, hpieces⟩ := List.exists_cons_of_ne_nil (pieces_ne_nil cs)
  have hfirst : pieces (c :: cs) = (c :: piece) :: more := by
    rw [pieces, hpieces]
    simp [hc]
  rw [hfirst]
  cases more with
  | nil => exact ⟨piece, rfl⟩
  | cons _ _ =>
    cases params with
    | nil => exact ⟨piece, rfl⟩
    | cons _ _ => exact ⟨_, rfl⟩

variable {draft : RequestDraft} {request : Request}

/-- What is put into a route does not change how it begins. -/
theorem RequestDraft.exists_url {route : List Char} (hroute : draft.route.toList = '/' :: route)
    (h : draft.build = .ok request) : ∃ more, request.url.toList = '/' :: more := by
  obtain ⟨more, hmore⟩ : ∃ more, Route.fill (Route.pieces ('/' :: route))
      (draft.params.map String.toList) = '/' :: more :=
    Route.exists_fill (by decide) _
  rw [eq_described_of_build h]
  unfold described filled
  rw [hroute, hmore]
  exact ⟨more, String.toList_ofList⟩

theorem Url.parse_relative {text : String} {more : List Char} (h : text.toList = '/' :: more) :
    parse text = .error .relative := by
  obtain ⟨more', hcleaned⟩ : ∃ more', cleaned (String.ofList ([] ++ '/' :: more)) =
      [] ++ '/' :: more' :=
    cleaned_append (List.forall_mem_nil _) (by decide) more
  have htext : String.ofList ([] ++ '/' :: more) = text := by
    rw [List.nil_append, ← h, String.ofList_toList]
  have hnone : splitScheme? (cleaned text) = none := by
    rw [← htext, hcleaned]
    rfl
  unfold parse
  rw [hnone]

theorem Url.withPairs_front (url : Url) (pairs : List (String × String)) :
    (url.withPairs pairs).scheme = url.scheme ∧ (url.withPairs pairs).authority = url.authority ∧
      (url.withPairs pairs).path = url.path := by
  unfold withPairs
  split <;> exact ⟨rfl, rfl, rfl⟩

/-! ## Targets -/

namespace Client

variable {settings : Settings} {client : Client} {base url : Url} {target : Target}

theorem exists_base (hbuild : settings.build = .ok client) (hbase : client.baseUrl = some base) :
    ∃ text, Url.parse text = .ok base ∧ base.isWeb = true := by
  obtain ⟨baseUrl, hchecked, h⟩ := exists_of_bind_ok hbuild
  have hsame : baseUrl = some base := by
    dsimp only at h
    split at h
    · cases h
    · obtain ⟨_, -, h⟩ := exists_of_bind_ok h
      obtain ⟨_, -, h⟩ := exists_of_bind_ok h
      cases h
      exact hbase
  subst hsame
  unfold Settings.checkedBase at hchecked
  split at hchecked
  · cases hchecked
  · split at hchecked
    · cases hchecked
    · rename_i hparse
      split at hchecked
      · rename_i hweb
        cases hchecked
        exact ⟨_, hparse, hweb⟩
      · cases hchecked

theorem target_ok (h : client.target request = .ok target) :
    ∃ url, client.address request = .ok url ∧
      Http.Uri.parse (url.withPairs request.query).text = .ok target.uri ∧
      target.host = target.uri.destination ∧
      target.poolKey = (url.withPairs request.query).scheme ++ "://" ++ target.uri.destination := by
  obtain ⟨url, haddress, h⟩ := exists_of_bind_ok h
  dsimp only at h
  split at h
  · cases h
  · split at h
    · cases h
    · rename_i huri
      cases h
      exact ⟨url, haddress, huri, rfl, rfl⟩

theorem address_of_relative {more : List Char} (hbase : client.baseUrl = some base)
    (hrelative : request.url.toList = '/' :: more) (h : client.address request = .ok url) :
    Url.parse (joinUrl base request.url) = .ok url := by
  unfold address at h
  rw [Url.parse_relative hrelative, hbase] at h
  exact eq_ok_of_mapError h

/-- A client with a base address sends a request for a route behind a slash to the host and the
port of that address, and nowhere else. -/
theorem target_of_relative {route : List Char} (hbuild : settings.build = .ok client)
    (hbase : client.baseUrl = some base) (hroute : draft.route.toList = '/' :: route)
    (hrequest : draft.build = .ok request) (h : client.target request = .ok target) :
    ∃ a, base.authority = some a ∧ target.uri.scheme = some base.scheme ∧
      target.uri.host = a.host.text ∧ target.uri.port? = a.port ∧
      target.host = a.host.text ++ ":" ++
        toString (a.port.getD (if base.scheme = "https" then 443 else 80)) ∧
      target.poolKey = base.scheme ++ "://" ++ target.host := by
  obtain ⟨text, hparse, hweb⟩ := exists_base hbuild hbase
  obtain ⟨more, hmore⟩ := RequestDraft.exists_url hroute hrequest
  obtain ⟨url, haddress, huri, hhost, hkey⟩ := target_ok h
  obtain ⟨a, a', path, ha, ha', hscheme, hcanonical, hsame, hport, hpath⟩ :=
    Url.parse_joinUrl hparse hweb (address_of_relative hbase hmore haddress)
  obtain ⟨hscheme', hauthority', hpath'⟩ := Url.withPairs_front url request.query
  obtain ⟨tail, htext⟩ := Url.exists_text (hauthority'.trans ha') (hpath' ▸ hpath)
  rw [hscheme', hscheme] at htext
  obtain ⟨hs, hname⟩ := Http.Uri.parse_web ((Url.isWeb_iff base).mp hweb)
    (fun c hc => Http.Uri.endsAuthority_of_url (hcanonical.text_chars.2 c hc).inside) htext huri
  obtain ⟨user, huser, hspelled⟩ := Url.exists_userText hcanonical
  have hhostText := hcanonical.host.isHostText
  rw [hspelled] at hname
  have huriHost : target.uri.host = a.host.text := by
    rw [Http.Uri.host_text huser hhostText hname, String.ofList_toList, hsame]
  have huriPort : target.uri.port? = a.port := by
    rw [Http.Uri.port?_text huser hhostText (fun p hp => (hcanonical.port p hp).1) hname, hport]
  have hdestination := Http.Uri.destination_web ((Url.isWeb_iff base).mp hweb) hs
  rw [huriHost, huriPort] at hdestination
  rw [hdestination] at hhost hkey
  rw [hscheme', hscheme, ← hhost] at hkey
  exact ⟨a, ha, hs, huriHost, huriPort, hhost, hkey⟩

/-- The settings of a client that has a secret to keep. -/
def trusted : Settings :=
  { Settings.standard with baseUrl := some "http://svc.test", authToken := some "secret" }

/-- A request whose route with its parameter looks like a host and a port behind two slashes. -/
def stray : RequestDraft := (RequestDraft.new .get "/\x7b\x7d").addParam "/user@evil.test:81/"

theorem target_of_relative_of_stray : ∃ client base request target,
    trusted.build = .ok client ∧ client.baseUrl = some base ∧ stray.build = .ok request ∧
      client.target request = .ok target ∧ base.scheme = "http" ∧
        ∃ a, base.authority = some a ∧ target.uri.host = a.host.text ∧
          target.poolKey = "http://svc.test:80" := by
  have hrun : (do
      let client ← trusted.build
      let request ← stray.build
      let target ← client.target request
      return (client.baseUrl, target.poolKey) : Except CallError _).toOption =
        some (some ⟨"http", some ⟨"", "", .name "svc.test", none⟩, "/", none, none⟩,
          "http://svc.test:80") := by
    decide +kernel
  obtain ⟨client, hclient, hrun⟩ := exists_of_bind_ok (eq_ok_of_toOption hrun)
  obtain ⟨request, hrequest, hrun⟩ := exists_of_bind_ok hrun
  obtain ⟨target, htarget, hrun⟩ := exists_of_bind_ok hrun
  obtain ⟨hbase, hkey⟩ := Prod.mk.inj (Except.ok.inj hrun)
  have hroute : stray.route.toList = '/' :: ['\x7b', '\x7d'] := by decide
  obtain ⟨a, ha, -, hhost, -⟩ := target_of_relative hclient hbase hroute hrequest htarget
  exact ⟨client, _, request, target, hclient, hbase, hrequest, htarget, rfl, a, ha, hhost, hkey⟩

end Client

end ServiceCall
