import Mathlib.Data.List.Induction
import ServiceCall.Client.Settings
import ServiceCall.Proofs.Call.Checks
import ServiceCall.Proofs.Results

/-!
# Clients that are built

Which settings a client is built from, and which headers it then sends by default: the token comes
before the accept type, and both come before the headers that were added.
-/

namespace ServiceCall

open Http

variable {s settings : Settings} {client : Client} {h h' : Headers}

/-! ## Added headers -/

namespace Http.Headers

/-- Puts a field in the place of those that have its name. -/
def put (h : Headers) (field : String × String) : Headers :=
  h.insert ⟨Text.lower field.1⟩ (.ofVisible field.2)

theorem valuesUnder_append (fields more : List (String × String)) (name : HeaderName) :
    valuesUnder (fields ++ more) name = valuesUnder fields name ++ valuesUnder more name :=
  List.filterMap_append

/-- Of the fields that were put under a name, the last one stays. -/
theorem getAll_foldl_put (fields : List (String × String)) (name : HeaderName) :
    (fields.foldl put .empty).getAll name = (valuesUnder fields name).getLast?.toList := by
  induction fields using List.reverseRecOn with
  | nil => rfl
  | append_singleton fields field ih =>
    rw [List.foldl_append, List.foldl_cons, List.foldl_nil, put, getAll_insert, ih,
      valuesUnder_append]
    obtain ⟨text⟩ := name
    by_cases hname : Text.lower field.1 = text
    · simp [valuesUnder, hname]
    · simp [valuesUnder, hname]

end Http.Headers

namespace Settings

theorem addDefaultHeader_ok {name value : String}
    (hadd : s.addDefaultHeader name value = .ok settings) :
    settings = { s with defaultHeaders := s.defaultHeaders.put (name, value) } := by
  unfold addDefaultHeader at hadd
  by_cases hname : IsHeaderName name
  · by_cases hvalue : IsHeaderText value
    · rw [HeaderName.ofString?_eq_some hname, HeaderValue.ofString?_eq_some hvalue] at hadd
      exact (Except.ok.inj hadd).symm
    · rw [HeaderName.ofString?_eq_some hname, HeaderValue.ofString?_eq_none hvalue] at hadd
      cases hadd
  · rw [HeaderName.ofString?_eq_none hname] at hadd
    cases hadd

/-- Adds headers one after the other. -/
def addDefaultHeaders (s : Settings) (fields : List (String × String)) :
    Except CallError Settings :=
  fields.foldlM (fun s field => s.addDefaultHeader field.1 field.2) s

theorem addDefaultHeaders_ok {fields : List (String × String)}
    (hadd : s.addDefaultHeaders fields = .ok settings) :
    settings = { s with defaultHeaders := fields.foldl Headers.put s.defaultHeaders } := by
  unfold addDefaultHeaders at hadd
  induction fields generalizing s with
  | nil =>
    cases hadd
    rfl
  | cons field fields ih =>
    rw [List.foldlM_cons] at hadd
    obtain ⟨next, hnext, hrest⟩ := exists_of_bind_ok hadd
    rw [ih hrest, addDefaultHeader_ok hnext]
    rfl

/-! ## The checks -/

/-- The header that carries the token, with its text. -/
def credential? (s : Settings) : Option (String × String) :=
  s.authToken.map fun token =>
    match s.authHeader with
    | none => ("Authorization", "Bearer " ++ token)
    | some header => (header, token)

/-- What a client can be built from. -/
structure Valid (s : Settings) : Prop where
  base : ∀ text ∈ s.baseUrl, ∃ url, Url.parse text = .ok url ∧
    (url.scheme = "http" ∨ url.scheme = "https")
  connections : 1 ≤ s.maxConnectionsPerHost
  accept : ∀ accept ∈ s.acceptType, IsHeaderText accept
  credential : ∀ field ∈ s.credential?, IsHeaderName field.1 ∧ IsHeaderText field.2

theorem exists_checkedBase_iff (s : Settings) :
    (∃ base, s.checkedBase = .ok base) ↔ ∀ text ∈ s.baseUrl, ∃ url, Url.parse text = .ok url ∧
      (url.scheme = "http" ∨ url.scheme = "https") := by
  unfold checkedBase
  cases s.baseUrl with
  | none => simp
  | some text =>
    simp only [Option.mem_some, forall_eq']
    cases Url.parse text with
    | error problem => simp
    | ok url =>
      by_cases hweb : url.scheme = "http" ∨ url.scheme = "https"
      · simp [Url.isWeb, hweb]
      · simp [Url.isWeb, hweb]

/-- The headers with the accept type. -/
def accepting (s : Settings) (h : Headers) : Headers :=
  s.acceptType.elim h fun accept => h.insert .accept (.ofVisible accept)

theorem withAccept_eq_ok_iff (s : Settings) (h h' : Headers) :
    s.withAccept h = .ok h' ↔
      (∀ accept ∈ s.acceptType, IsHeaderText accept) ∧ h' = s.accepting h := by
  unfold withAccept accepting
  cases s.acceptType with
  | none => simp [eq_comm]
  | some accept =>
    by_cases htext : IsHeaderText accept
    · simp [HeaderValue.ofString?_eq_some htext, htext, eq_comm]
    · simp [HeaderValue.ofString?_eq_none htext, htext]

/-- A value that is kept out of debugging output. -/
def secret (text : String) : HeaderValue := { HeaderValue.ofVisible text with sensitive := true }

/-- The headers with the token. -/
def authorized (s : Settings) (h : Headers) : Headers :=
  s.credential?.elim h fun field => h.insert ⟨Text.lower field.1⟩ (secret field.2)

theorem withToken_eq_ok_iff (s : Settings) (h h' : Headers) :
    s.withToken h = .ok h' ↔
      (∀ field ∈ s.credential?, IsHeaderName field.1 ∧ IsHeaderText field.2) ∧
        h' = s.authorized h := by
  unfold withToken tokenField authorized credential?
  cases s.authToken with
  | none => simp [eq_comm]
  | some token =>
    cases s.authHeader with
    | none =>
      have hname : IsHeaderName "Authorization" := by decide
      have hlower : (⟨Text.lower "Authorization"⟩ : HeaderName) = .authorization := by decide
      by_cases htext : IsHeaderText ("Bearer " ++ token)
      · simp [HeaderValue.ofString?_eq_some htext, htext, hname, hlower, secret, eq_comm, bind,
          Except.bind, pure, Except.pure]
      · simp [HeaderValue.ofString?_eq_none htext, htext, bind, Except.bind]
    | some header =>
      by_cases hname : IsHeaderName header
      · by_cases htext : IsHeaderText token
        · simp [HeaderName.ofString?_eq_some hname, HeaderValue.ofString?_eq_some htext, hname,
            htext, secret, eq_comm, bind, Except.bind, pure, Except.pure]
        · simp [HeaderName.ofString?_eq_some hname, HeaderValue.ofString?_eq_none htext, htext,
            bind, Except.bind]
      · simp [HeaderName.ofString?_eq_none hname, hname, bind, Except.bind]

theorem exists_build_iff (s : Settings) : (∃ client, s.build = .ok client) ↔ s.Valid := by
  constructor
  · rintro ⟨client, hbuild⟩
    obtain ⟨base, hbase, hbuild⟩ := exists_of_bind_ok hbuild
    dsimp only at hbuild
    split at hbuild
    · cases hbuild
    · rename_i hsome
      obtain ⟨h, haccept, hbuild⟩ := exists_of_bind_ok hbuild
      obtain ⟨h', htoken, -⟩ := exists_of_bind_ok hbuild
      exact ⟨s.exists_checkedBase_iff.mp ⟨base, hbase⟩, Nat.pos_of_ne_zero hsome,
        ((s.withAccept_eq_ok_iff ..).mp haccept).1, ((s.withToken_eq_ok_iff ..).mp htoken).1⟩
  · intro hvalid
    obtain ⟨base, hbase⟩ := s.exists_checkedBase_iff.mpr hvalid.base
    have hsome : s.maxConnectionsPerHost ≠ 0 := Nat.ne_of_gt hvalid.connections
    have haccept := (s.withAccept_eq_ok_iff s.defaultHeaders _).mpr ⟨hvalid.accept, rfl⟩
    have htoken := (s.withToken_eq_ok_iff (s.accepting s.defaultHeaders) _).mpr
      ⟨hvalid.credential, rfl⟩
    unfold build
    rw [hbase]
    simp only [bind, Except.bind, if_neg hsome, haccept, htoken]
    exact ⟨_, rfl⟩

theorem defaultHeaders_of_build (hbuild : s.build = .ok client) :
    client.defaultHeaders = s.authorized (s.accepting s.defaultHeaders) := by
  obtain ⟨base, -, hbuild⟩ := exists_of_bind_ok hbuild
  dsimp only at hbuild
  split at hbuild
  · cases hbuild
  · obtain ⟨h, haccept, hbuild⟩ := exists_of_bind_ok hbuild
    obtain ⟨h', htoken, hbuild⟩ := exists_of_bind_ok hbuild
    cases hbuild
    rw [((s.withToken_eq_ok_iff ..).mp htoken).2, ((s.withAccept_eq_ok_iff ..).mp haccept).2]

/-! ## The headers of the client -/

/-- The token, if it is carried under this name. -/
def credentialUnder? (s : Settings) (name : HeaderName) : Option HeaderValue :=
  s.credential?.bind fun field =>
    if Text.lower field.1 = name.text then some (secret field.2) else none

/-- The accept type, if this is its name. -/
def acceptUnder? (s : Settings) (name : HeaderName) : Option HeaderValue :=
  if name = .accept then s.acceptType.map .ofVisible else none

theorem getAll_accepting (s : Settings) (h : Headers) (name : HeaderName) :
    (s.accepting h).getAll name =
      (s.acceptUnder? name).elim (h.getAll name) fun value => [value] := by
  unfold accepting acceptUnder?
  cases s.acceptType with
  | none => simp
  | some accept =>
    rw [Option.elim_some, Headers.getAll_insert]
    by_cases hname : name = .accept
    · simp [hname]
    · simp [hname, Ne.symm hname]

theorem getAll_authorized (s : Settings) (h : Headers) (name : HeaderName) :
    (s.authorized h).getAll name =
      (s.credentialUnder? name).elim (h.getAll name) fun value => [value] := by
  unfold authorized credentialUnder?
  cases s.credential? with
  | none => rfl
  | some field =>
    rw [Option.elim_some, Option.bind_some, Headers.getAll_insert]
    obtain ⟨text⟩ := name
    by_cases hname : Text.lower field.1 = text
    · simp [hname]
    · simp [hname]

theorem sensitive_of_credentialUnder {name : HeaderName} {value : HeaderValue}
    (h : s.credentialUnder? name = some value) : value.sensitive = true := by
  obtain ⟨field, -, hfield⟩ := Option.bind_eq_some_iff.mp h
  split at hfield
  · cases hfield
    rfl
  · cases hfield

theorem not_sensitive_of_acceptUnder {name : HeaderName} {value : HeaderValue}
    (h : s.acceptUnder? name = some value) : value.sensitive = false := by
  unfold acceptUnder? at h
  split at h
  · obtain ⟨accept, -, rfl⟩ := Option.map_eq_some_iff.mp h
    rfl
  · cases h

theorem not_sensitive_of_mem_valuesUnder {fields : List (String × String)} {name : HeaderName}
    {value : HeaderValue} (h : value ∈ valuesUnder fields name) : value.sensitive = false := by
  obtain ⟨field, -, hfield⟩ := List.mem_filterMap.mp h
  split at hfield
  · cases hfield
    rfl
  · cases hfield

/-- The value under a name: the token, else the accept type, else the last header added. -/
def valueUnder? (s : Settings) (fields : List (String × String)) (name : HeaderName) :
    Option HeaderValue :=
  s.credentialUnder? name <|> s.acceptUnder? name <|> (valuesUnder fields name).getLast?

theorem sensitive_valueUnder_iff {fields : List (String × String)} {name : HeaderName}
    {value : HeaderValue} (h : s.valueUnder? fields name = some value) :
    value.sensitive = true ↔ s.credentialUnder? name = some value := by
  refine ⟨fun hsensitive => ?_, sensitive_of_credentialUnder⟩
  unfold valueUnder? at h
  cases htoken : s.credentialUnder? name with
  | some token =>
    rw [htoken] at h
    exact h
  | none =>
    have hplain : value.sensitive = false := by
      rw [htoken] at h
      cases haccept : s.acceptUnder? name with
      | some accept =>
        rw [haccept] at h
        exact not_sensitive_of_acceptUnder (haccept.trans h)
      | none =>
        rw [haccept] at h
        exact not_sensitive_of_mem_valuesUnder (List.mem_of_getLast? h)
    rw [hplain] at hsensitive
    cases hsensitive

/-- A client is built from the settings that are valid, whatever headers were added to them. Under
each name it has at most one value by default: the token, which alone is sensitive, before the
accept type, before the last header that was added. -/
theorem build_of_added {fields : List (String × String)} (hnew : s.defaultHeaders = .empty)
    (hadd : s.addDefaultHeaders fields = .ok settings) :
    ((∃ client, settings.build = .ok client) ↔ s.Valid) ∧
      ∀ client, settings.build = .ok client → ∀ name,
        client.defaultHeaders.getAll name = (s.valueUnder? fields name).toList ∧
        ∀ value ∈ client.defaultHeaders.getAll name,
          value.sensitive = true ↔ s.credentialUnder? name = some value := by
  obtain rfl := addDefaultHeaders_ok hadd
  refine ⟨(exists_build_iff _).trans ?_, ?_⟩
  · exact ⟨fun h => ⟨h.base, h.connections, h.accept, h.credential⟩,
      fun h => ⟨h.base, h.connections, h.accept, h.credential⟩⟩
  · intro client hbuild name
    have hone : client.defaultHeaders.getAll name = (s.valueUnder? fields name).toList := by
      rw [defaultHeaders_of_build hbuild, getAll_authorized, getAll_accepting, hnew,
        Headers.getAll_foldl_put]
      change (s.credentialUnder? name).elim ((s.acceptUnder? name).elim _ _) _ = _
      unfold valueUnder?
      cases s.credentialUnder? name <;> cases s.acceptUnder? name <;> rfl
    refine ⟨hone, ?_⟩
    intro value hvalue
    rw [hone, Option.mem_toList] at hvalue
    exact sensitive_valueUnder_iff hvalue

/-- Settings with a token of their own name, which is also the name of an added header. -/
def keyed : Settings :=
  { standard with
    baseUrl := some "https://svc.test/v1"
    authToken := some "t0k"
    authHeader := some "X-Api-Key"
    acceptType := some "text/css" }

theorem build_of_added_of_keyed :
    let fields := [("x-api-key", "old"), ("Accept", "*/*"), ("Vary", "a"), ("vary", "b")]
    ∃ settings client, keyed.defaultHeaders = .empty ∧
      keyed.addDefaultHeaders fields = .ok settings ∧ keyed.Valid ∧
      settings.build = .ok client ∧
      client.defaultHeaders.getAll ⟨"x-api-key"⟩ = [secret "t0k"] ∧
      client.defaultHeaders.getAll .accept = [.ofVisible "text/css"] ∧
      client.defaultHeaders.getAll ⟨"vary"⟩ = [.ofVisible "b"] ∧
      client.defaultHeaders.getAll .authorization = [] := by
  intro fields
  have hadd : (keyed.addDefaultHeaders fields).isOk = true := by decide +kernel
  have hvalid : keyed.Valid := by
    refine ⟨?_, by decide, by decide, by decide⟩
    rintro text ⟨⟩
    exact ⟨⟨"https", some ⟨"", "", .name "svc.test", none⟩, "/v1", none, none⟩,
      eq_ok_of_toOption (by decide +kernel), Or.inr rfl⟩
  cases hsettings : keyed.addDefaultHeaders fields with
  | error error =>
    rw [hsettings] at hadd
    cases hadd
  | ok settings =>
    obtain ⟨hbuilds, hheaders⟩ := build_of_added rfl hsettings
    obtain ⟨client, hclient⟩ := hbuilds.mpr hvalid
    have hall := fun name => (hheaders client hclient name).1
    refine ⟨settings, client, rfl, rfl, hvalid, hclient, ?_, ?_, ?_, ?_⟩
    · exact (hall _).trans (by decide)
    · exact (hall _).trans (by decide)
    · exact (hall _).trans (by decide)
    · exact (hall _).trans (by decide)

end Settings

end ServiceCall
