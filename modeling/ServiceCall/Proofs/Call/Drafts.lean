import Mathlib.Data.List.Basic
import Mathlib.Data.List.Induction
import ServiceCall.Proofs.Call.Checks

/-!
# Drafts made of settings

A draft is made by settings of a dozen kinds, each any number of times and in any order. Of a kind
that holds one thing the last setting counts, of a kind that collects all of them do, in order. So
what is built, and whether it is, can be told from the settings of each kind.
-/

namespace ServiceCall

namespace RequestDraft

/-- One thing that is said of a request while it is drafted. -/
inductive Setting where
  | param (value : String)
  /-- A JSON body, or why it cannot be written. -/
  | json (value : Except String Json)
  | body (bytes : Bytes)
  | header (name value : String)
  | query (key value : String)
  | cookie (name value : String)
  | timeout (timeout : Duration)
  | deadline (deadline : Instant)
  | withoutRetry
  | withoutPropagation
  | traceParent (text : String)
  | decodeStatus (status : Http.Status)

def set (d : RequestDraft) : Setting → RequestDraft
  | .param value => d.addParam value
  | .json (.ok value) => d.setJson value
  | .json (.error reason) => d.setUnwritable reason
  | .body bytes => d.setBody bytes
  | .header name value => d.addHeader name value
  | .query key value => d.addQuery key value
  | .cookie name value => d.addCookie name value
  | .timeout timeout => d.setTimeout timeout
  | .deadline deadline => d.setDeadline deadline
  | .withoutRetry => d.withoutRetry
  | .withoutPropagation => d.withoutPropagation
  | .traceParent text => d.setTraceParent text
  | .decodeStatus status => d.addDecodeStatus status

def drafted (method : Http.Method) (route : String) (settings : List Setting) : RequestDraft :=
  settings.foldl set (new method route)

/-! ## The settings of one kind -/

namespace Setting

def param? : Setting → Option String
  | param value => some value
  | _ => none

/-- The text of a JSON body, or why there is none. -/
def json? : Setting → Option (Except String Bytes)
  | json value => some (value.map fun v => Bytes.ofString v.text)
  | _ => none

def body? : Setting → Option Bytes
  | body bytes => some bytes
  | _ => none

def header? : Setting → Option (String × String)
  | header name value => some (name, value)
  | _ => none

def query? : Setting → Option (String × String)
  | query key value => some (key, value)
  | _ => none

def cookie? : Setting → Option (String × String)
  | cookie name value => some (name, value)
  | _ => none

def timeout? : Setting → Option Duration
  | timeout t => some t
  | _ => none

def deadline? : Setting → Option Instant
  | deadline t => some t
  | _ => none

def traceParent? : Setting → Option String
  | traceParent text => some text
  | _ => none

def decodeStatus? : Setting → Option Http.Status
  | decodeStatus status => some status
  | _ => none

def stopsRetry : Setting → Bool
  | withoutRetry => true
  | _ => false

def stopsPropagation : Setting → Bool
  | withoutPropagation => true
  | _ => false

/-- The body of either kind. -/
def payload? : Setting → Option (Except String Bytes)
  | json value => some (value.map fun v => Bytes.ofString v.text)
  | body bytes => some (.ok bytes)
  | _ => none

end Setting

variable (method : Http.Method) (route : String) {settings : List Setting}

theorem drafted_eq (settings : List Setting) :
    drafted method route settings =
      { method, route
        params := settings.filterMap Setting.param?
        json := (settings.filterMap Setting.json?).getLast?
        raw := (settings.filterMap Setting.body?).getLast?
        headers := settings.filterMap Setting.header?
        query := settings.filterMap Setting.query?
        cookies := settings.filterMap Setting.cookie?
        timeout := (settings.filterMap Setting.timeout?).getLast?
        deadline := (settings.filterMap Setting.deadline?).getLast?
        retryEnabled := !settings.any Setting.stopsRetry
        propagate := !settings.any Setting.stopsPropagation
        traceParent := (settings.filterMap Setting.traceParent?).getLast?
        decodeStatuses := settings.filterMap Setting.decodeStatus? } := by
  unfold drafted
  induction settings using List.reverseRecOn with
  | nil => rfl
  | append_singleton settings s ih =>
    rw [List.foldl_append, List.foldl_cons, List.foldl_nil, ih]
    -- each setting shows in one field, where it is the last
    rcases s with _ | (_ | _) | _ | _ | _ | _ | _ | _ | _ | _ | _ | _ <;>
      simp only [List.filterMap_append, List.any_append, List.filterMap_cons, List.filterMap_nil,
        List.any_cons, List.any_nil, Setting.param?, Setting.json?, Setting.body?,
        Setting.header?, Setting.query?, Setting.cookie?, Setting.timeout?, Setting.deadline?,
        Setting.stopsRetry, Setting.stopsPropagation, Setting.traceParent?,
        Setting.decodeStatus?, Except.map, List.append_nil, List.getLast?_concat, Bool.or_false,
        Bool.or_true, Bool.not_true] <;>
      rfl

namespace Setting

section

variable {α β : Type} {f? : Setting → Option α}

theorem filterMap_eq_nil_iff {c : β → Setting} (h : ∀ s, f? s = none ↔ ∀ b, s ≠ c b) :
    settings.filterMap f? = [] ↔ ∀ b, c b ∉ settings := by
  simp only [List.filterMap_eq_nil_iff, h]
  exact ⟨fun hnone b hb => hnone _ hb b rfl, fun hnone s hs b hsb => hnone b (hsb ▸ hs)⟩

theorem mem_filterMap_iff {a : α} {s : Setting} (h : ∀ t, f? t = some a ↔ t = s) :
    a ∈ settings.filterMap f? ↔ s ∈ settings := by
  simp only [List.mem_filterMap, h, exists_eq_right]

theorem any_iff {p : Setting → Bool} {s : Setting} (h : ∀ t, p t = true ↔ t = s) :
    settings.any p = true ↔ s ∈ settings := by
  simp only [List.any_eq_true, h, exists_eq_right]

end

theorem filterMap_json?_eq_nil_iff :
    settings.filterMap json? = [] ↔ ∀ value, json value ∉ settings :=
  filterMap_eq_nil_iff fun s => by cases s <;> simp [json?]

theorem filterMap_body?_eq_nil_iff :
    settings.filterMap body? = [] ↔ ∀ bytes, body bytes ∉ settings :=
  filterMap_eq_nil_iff fun s => by cases s <;> simp [body?]

theorem mem_filterMap_header? {field : String × String} :
    field ∈ settings.filterMap header? ↔ header field.1 field.2 ∈ settings :=
  mem_filterMap_iff fun s => by cases s <;> simp [header?, Prod.ext_iff]

theorem mem_filterMap_decodeStatus? {status : Http.Status} :
    status ∈ settings.filterMap decodeStatus? ↔ decodeStatus status ∈ settings :=
  mem_filterMap_iff fun s => by cases s <;> simp [decodeStatus?]

theorem any_stopsRetry : settings.any stopsRetry = true ↔ withoutRetry ∈ settings :=
  any_iff fun s => by cases s <;> simp [stopsRetry]

theorem any_stopsPropagation :
    settings.any stopsPropagation = true ↔ withoutPropagation ∈ settings :=
  any_iff fun s => by cases s <;> simp [stopsPropagation]

theorem filterMap_payload?_of_no_body (h : settings.filterMap body? = []) :
    settings.filterMap payload? = settings.filterMap json? := by
  refine List.filterMap_congr fun s hs => ?_
  cases s with
  | body bytes => exact (filterMap_body?_eq_nil_iff.mp h bytes hs).elim
  | _ => rfl

theorem filterMap_payload?_of_no_json (h : settings.filterMap json? = []) :
    settings.filterMap payload? = (settings.filterMap body?).map .ok := by
  rw [List.map_filterMap]
  refine List.filterMap_congr fun s hs => ?_
  cases s with
  | json value => exact (filterMap_json?_eq_nil_iff.mp h value hs).elim
  | _ => rfl

end Setting

/-! ## What is built -/

/-- The cookies in one line. -/
def cookieLine (cookies : List (String × String)) : String :=
  "; ".intercalate (cookies.map fun (name, value) => name ++ "=" ++ value)

/-- Only JSON bodies are set, and the last one cannot be written. -/
def Unwritable (settings : List Setting) (reason : String) : Prop :=
  (∀ bytes, .body bytes ∉ settings) ∧
    (settings.filterMap Setting.json?).getLast? = some (.error reason)

/-- What settings must be like for there to be a request. -/
structure Acceptable (route : String) (settings : List Setting) : Prop where
  oneBody : (∀ value, .json value ∉ settings) ∨ ∀ bytes, .body bytes ∉ settings
  written : ∀ reason, (settings.filterMap Setting.json?).getLast? ≠ some (.error reason)
  params : (settings.filterMap Setting.param?).length = Route.placeholders route.toList
  headers : ∀ name value, .header name value ∈ settings →
    Http.IsHeaderName name ∧ Http.IsHeaderText value
  cookies : Http.IsHeaderText (cookieLine (settings.filterMap Setting.cookie?))
  parent : ∀ text, (settings.filterMap Setting.traceParent?).getLast? = some text →
    (TraceContext.parse? text).isSome = true

/-- What a request that is built has of its settings. -/
structure Carries (method : Http.Method) (route : String) (settings : List Setting)
    (r : Request) : Prop where
  site : r.site = ⟨method, route⟩
  url : Route.expand? route (settings.filterMap Setting.param?) = some r.url
  headers : ∀ name, name ≠ .cookie → r.headers.getAll name =
    Http.valuesUnder (settings.filterMap Setting.header?) name ++
      if name = .contentType ∧ settings.filterMap Setting.json? ≠ [] ∧
        Http.valuesUnder (settings.filterMap Setting.header?) .contentType = []
      then [.ofVisible "application/json; charset=utf-8"] else []
  body : r.body.map .ok = (settings.filterMap Setting.payload?).getLast?
  query : r.query = settings.filterMap Setting.query?
  timeout : r.timeout = (settings.filterMap Setting.timeout?).getLast?
  deadline : r.deadline = (settings.filterMap Setting.deadline?).getLast?
  retryEnabled : r.retryEnabled = true ↔ .withoutRetry ∉ settings
  propagate : r.propagate = true ↔ .withoutPropagation ∉ settings
  traceParent : r.traceParent =
    (settings.filterMap Setting.traceParent?).getLast?.bind TraceContext.parse?
  decodeStatuses : ∀ status, status ∈ r.decodeStatuses ↔ .decodeStatus status ∈ settings

theorem unwritten_drafted_iff {reason : String} :
    (drafted method route settings).Unwritten reason ↔ Unwritable settings reason := by
  rw [drafted_eq]
  unfold Unwritten Unwritable
  rw [List.getLast?_eq_none_iff, Setting.filterMap_body?_eq_nil_iff, and_comm]

variable {route}

theorem wellFormed_drafted_iff :
    (drafted method route settings).WellFormed ∧
      (∀ reason, ¬ (drafted method route settings).Unwritten reason) ↔
        Acceptable route settings := by
  simp only [unwritten_drafted_iff]
  rw [drafted_eq]
  constructor
  · rintro ⟨⟨oneBody, params, headers, cookies, parent⟩, hwritten⟩
    simp only [List.getLast?_eq_none_iff, Setting.filterMap_json?_eq_nil_iff,
      Setting.filterMap_body?_eq_nil_iff] at oneBody
    refine ⟨oneBody, fun reason hlast => ?_, params,
      fun name value h => headers (name, value) (Setting.mem_filterMap_header?.mpr h), cookies,
      parent⟩
    rcases oneBody with hjson | hbody
    · rw [Setting.filterMap_json?_eq_nil_iff.mpr hjson] at hlast
      cases hlast
    · exact hwritten reason ⟨hbody, hlast⟩
  · rintro ⟨oneBody, written, params, headers, cookies, parent⟩
    refine ⟨⟨?_, params, fun field h => headers field.1 field.2
      (Setting.mem_filterMap_header?.mp h), cookies, parent⟩,
      fun reason h => written reason h.2⟩
    simpa only [List.getLast?_eq_none_iff, Setting.filterMap_json?_eq_nil_iff,
      Setting.filterMap_body?_eq_nil_iff] using oneBody

theorem payload_drafted (h : Acceptable route settings) :
    (drafted method route settings).payload.map .ok =
      (settings.filterMap Setting.payload?).getLast? := by
  rw [drafted_eq]
  unfold payload
  rcases h.oneBody with hjson | hbody
  · have hnone := Setting.filterMap_json?_eq_nil_iff.mpr hjson
    rw [Setting.filterMap_payload?_of_no_json hnone, hnone, List.getLast?_map]
    rfl
  · have hnone := Setting.filterMap_body?_eq_nil_iff.mpr hbody
    rw [Setting.filterMap_payload?_of_no_body hnone, hnone]
    cases hlast : (settings.filterMap Setting.json?).getLast? with
    | none => rfl
    | some written =>
      cases written with
      | ok bytes => rfl
      | error reason => exact (h.written reason hlast).elim

theorem described_drafted (h : Acceptable route settings) :
    Carries method route settings (drafted method route settings).described where
  site := by rw [drafted_eq]; rfl
  url := by
    rw [drafted_eq]
    unfold Route.expand? described filled
    rw [if_pos h.params.symm]
  headers name hname := by
    rw [described, getAll_sentHeaders _ hname, drafted_eq]
    simp only [List.getLast?_isSome, jsonContentType]
  body := payload_drafted method h
  query := by rw [drafted_eq]; rfl
  timeout := by rw [drafted_eq]; rfl
  deadline := by rw [drafted_eq]; rfl
  retryEnabled := by
    rw [drafted_eq, ← Setting.any_stopsRetry]
    simp [described]
  propagate := by
    rw [drafted_eq, ← Setting.any_stopsPropagation]
    simp [described]
  traceParent := by rw [drafted_eq]; rfl
  decodeStatuses status := by
    rw [drafted_eq]
    exact Setting.mem_filterMap_decodeStatus?

/-- Which settings make a request, how the others fail, and what the request has of its
settings. -/
theorem build_drafted (method : Http.Method) (route : String) (settings : List Setting) :
    ((∃ r, (drafted method route settings).build = .ok r) ↔ Acceptable route settings) ∧
    (∀ reason, (drafted method route settings).build = .error (.serialization reason) ↔
      Unwritable settings reason) ∧
    ((∃ reason, (drafted method route settings).build = .error (.usage reason)) ↔
      ¬ Acceptable route settings ∧ ∀ reason, ¬ Unwritable settings reason) ∧
    ∀ r, (drafted method route settings).build = .ok r → Carries method route settings r := by
  refine ⟨?_, ?_, ?_, ?_⟩
  · rw [exists_build_iff, wellFormed_drafted_iff]
  · intro reason
    rw [build_eq_serialization_iff, unwritten_drafted_iff]
  · rw [exists_usage_iff, ← wellFormed_drafted_iff method]
    simp only [← unwritten_drafted_iff method route]
    constructor
    · rintro ⟨hformed, hwritten⟩
      exact ⟨fun h => hformed h.1, hwritten⟩
    · rintro ⟨hacceptable, hwritten⟩
      exact ⟨fun h => hacceptable ⟨h, hwritten⟩, hwritten⟩
  · intro r h
    rw [eq_described_of_build h]
    exact described_drafted method
      ((wellFormed_drafted_iff method).mp (exists_build_iff.mp ⟨r, h⟩))

/-- Two spellings of a header's name are one header. -/
theorem build_drafted_of_user :
    let settings : List Setting := [.header "X-Tag" "a", .json (.error "unsupported type"),
      .param "42", .cookie "id" "7", .header "x-tag" "b", .json (.ok (.bool true)),
      .traceParent "00-0af7651916cd43dd8448eb211c80319c-b7ad6b7169203331-01"]
    Acceptable "/users/\x7b\x7d" settings ∧
      ∃ r, (drafted .post "/users/\x7b\x7d" settings).build = .ok r ∧
        r.headers.getAll ⟨"x-tag"⟩ = [.ofVisible "a", .ofVisible "b"] ∧
        r.headers.getAll .contentType = [.ofVisible "application/json; charset=utf-8"] ∧
        r.body = some (Bytes.ofString "true") ∧ r.url = "/users/42" := by
  intro settings
  have hacc : Acceptable "/users/\x7b\x7d" settings := by
    refine ⟨.inr (by simp [settings]), ?_, by decide, ?_, by decide, ?_⟩
    · intro reason h
      cases h
    · intro name value h
      simp only [settings, List.mem_cons, Setting.header.injEq, reduceCtorEq, List.not_mem_nil,
        or_false, false_or] at h
      rcases h with ⟨rfl, rfl⟩ | ⟨rfl, rfl⟩ <;> decide
    · intro text h
      cases h
      decide
  obtain ⟨hok, -, -, hcarries⟩ := build_drafted .post "/users/\x7b\x7d" settings
  obtain ⟨r, hr⟩ := hok.mpr hacc
  have h := hcarries r hr
  refine ⟨hacc, r, hr, ?_, ?_, ?_, ?_⟩
  · rw [h.headers _ (by decide)]
    decide
  · rw [h.headers _ (by decide)]
    decide
  · have hbody : r.body.map .ok = some (Except.ok (ε := String) (Bytes.ofString "true")) :=
      h.body
    simpa using hbody
  · have hurl : Route.expand? "/users/\x7b\x7d" ["42"] = some "/users/42" := by decide
    exact Option.some.inj (h.url.symm.trans hurl)

end RequestDraft

end ServiceCall
