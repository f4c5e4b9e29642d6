import Mathlib.Tactic.ByContra
import ServiceCall.Call.Request
import ServiceCall.Proofs.Call.Expansion

/-!
# The checks of a draft

Each check of a draft makes one demand. If the demand is met, the check gives its part of the
request; if not, the draft was misused. The exception is a JSON body that cannot be written, which
is not a misuse.
-/

namespace ServiceCall

/-! ## Demands -/

section Demands

variable {α β : Type} {x : Except CallError α} {f : α → Except CallError β} {p q : Prop} {a : α}
  {b : β}

/-- The check gives this value if the demand is met, and finds a misuse if it is not. -/
structure Demands (x : Except CallError α) (p : Prop) (a : α) : Prop where
  met : p → x = .ok a
  unmet : ¬ p → ∃ reason, x = .error (.usage reason)

namespace Demands

theorem ok (a : α) : Demands (.ok a) True a := ⟨fun _ => rfl, fun h => (h trivial).elim⟩

theorem of_iff (h : Demands x p a) (hpq : p ↔ q) : Demands x q a :=
  ⟨fun hq => h.met (hpq.mpr hq), fun hq => h.unmet (mt hpq.mp hq)⟩

theorem bind (hx : Demands x p a) (hf : Demands (f a) q b) : Demands (x >>= f) (p ∧ q) b := by
  refine ⟨fun h => ?_, fun h => ?_⟩
  · rw [hx.met h.1]
    exact hf.met h.2
  · by_cases hp : p
    · rw [hx.met hp]
      exact hf.unmet fun hq => h ⟨hp, hq⟩
    · obtain ⟨reason, hreason⟩ := hx.unmet hp
      rw [hreason]
      exact ⟨reason, rfl⟩

theorem of_ok (h : Demands x p a) {a' : α} (hx : x = .ok a') : p ∧ a' = a := by
  by_cases hp : p
  · rw [h.met hp] at hx
    exact ⟨hp, (Except.ok.inj hx).symm⟩
  · obtain ⟨reason, hreason⟩ := h.unmet hp
    rw [hreason] at hx
    cases hx

theorem exists_usage_iff (h : Demands x p a) : (∃ reason, x = .error (.usage reason)) ↔ ¬ p := by
  refine ⟨fun ⟨reason, hreason⟩ hp => ?_, h.unmet⟩
  rw [h.met hp] at hreason
  cases hreason

theorem ne_serialization (h : Demands x p a) (reason : String) :
    x ≠ .error (.serialization reason) := by
  intro hx
  by_cases hp : p
  · rw [h.met hp] at hx
    cases hx
  · obtain ⟨reason', hreason⟩ := h.unmet hp
    rw [hreason] at hx
    cases hx

end Demands

end Demands

/-! ## Header fields -/

namespace Http

/-- The text spells a header name, in any case. -/
def IsHeaderName (s : String) : Prop := isToken s = true ∧ s.length < 65536

/-- The text can stand in a header: no control character but the tab. -/
def IsHeaderText (s : String) : Prop := ∀ b ∈ Bytes.ofString s, isValueByte b = true

instance (s : String) : Decidable (IsHeaderName s) := inferInstanceAs (Decidable (_ ∧ _))

instance (s : String) : Decidable (IsHeaderText s) :=
  List.decidableBAll (fun b => isValueByte b = true) (Bytes.ofString s)

variable {s : String}

theorem HeaderName.ofString?_eq_some (h : IsHeaderName s) :
    HeaderName.ofString? s = some ⟨Text.lower s⟩ := by
  unfold ofString?
  rw [if_pos (by simpa [IsHeaderName] using h)]

theorem HeaderName.ofString?_eq_none (h : ¬ IsHeaderName s) : HeaderName.ofString? s = none := by
  unfold ofString?
  rw [if_neg (by simpa [IsHeaderName] using h)]

theorem HeaderValue.ofString?_eq_some (h : IsHeaderText s) :
    HeaderValue.ofString? s = some (.ofVisible s) := by
  unfold ofString? ofBytes?
  rw [if_pos (List.all_eq_true.mpr h)]
  rfl

theorem HeaderValue.ofString?_eq_none (h : ¬ IsHeaderText s) : HeaderValue.ofString? s = none := by
  unfold ofString? ofBytes?
  rw [if_neg (mt List.all_eq_true.mp h)]

/-- The values that are given under a name, in any case, in the order in which they are given. -/
def valuesUnder (fields : List (String × String)) (name : HeaderName) : List HeaderValue :=
  fields.filterMap fun f => if Text.lower f.1 = name.text then some (.ofVisible f.2) else none

def Headers.ofFields (fields : List (String × String)) : Headers :=
  ⟨fields.map fun f => (⟨Text.lower f.1⟩, .ofVisible f.2)⟩

theorem Headers.getAll_ofFields (fields : List (String × String)) (name : HeaderName) :
    (ofFields fields).getAll name = valuesUnder fields name := by
  unfold ofFields getAll valuesUnder
  rw [List.filterMap_map]
  congr 1
  funext f
  cases name
  simp

theorem Headers.contains_eq_false_iff (h : Headers) (name : HeaderName) :
    h.contains name = false ↔ h.getAll name = [] := by
  unfold contains get?
  cases h.getAll name <;> simp

end Http

/-! ## The checks -/

namespace RequestDraft

open Http

variable (d : RequestDraft)

/-- Only a JSON body is set, and it cannot be written. -/
def Unwritten (reason : String) : Prop := d.json = some (.error reason) ∧ d.raw = none

/-- The body that is set: the JSON body if there is one. -/
def payload : Option Bytes :=
  match d.json with
  | some written => written.toOption
  | none => d.raw

theorem body_of_unwritten {d : RequestDraft} {reason : String} (h : d.Unwritten reason) :
    d.body = .error (.serialization reason) := by
  unfold body
  rw [h.1, h.2]

theorem body_demands {d : RequestDraft} (h : ∀ reason, ¬ d.Unwritten reason) :
    Demands d.body (d.json = none ∨ d.raw = none) d.payload := by
  unfold body payload
  cases hjson : d.json with
  | none => exact (Demands.ok d.raw).of_iff (by simp)
  | some written =>
    cases hraw : d.raw with
    | some raw => exact ⟨by simp, fun _ => ⟨_, rfl⟩⟩
    | none =>
      cases written with
      | ok bytes => exact (Demands.ok (some bytes)).of_iff (by simp)
      | error reason => exact (h reason ⟨hjson, hraw⟩).elim

/-- The route with as many parameters as it has places for. -/
def filled : String :=
  String.ofList (Route.fill (Route.pieces d.route.toList) (d.params.map String.toList))

theorem url_demands :
    Demands d.url (d.params.length = Route.placeholders d.route.toList) d.filled := by
  unfold url Route.expand? filled
  refine ⟨fun h => ?_, fun h => ?_⟩
  · rw [if_pos h.symm]
  · rw [if_neg (Ne.symm h)]
    exact ⟨_, rfl⟩

theorem appendHeader_demands (h : Headers) (field : String × String) :
    Demands (appendHeader h field) (IsHeaderName field.1 ∧ IsHeaderText field.2)
      (h.append ⟨Text.lower field.1⟩ (.ofVisible field.2)) := by
  unfold appendHeader
  by_cases hname : IsHeaderName field.1
  · rw [HeaderName.ofString?_eq_some hname]
    by_cases hvalue : IsHeaderText field.2
    · rw [HeaderValue.ofString?_eq_some hvalue]
      exact (Demands.ok _).of_iff (by simp [hname, hvalue])
    · rw [HeaderValue.ofString?_eq_none hvalue]
      exact ⟨fun h => (hvalue h.2).elim, fun _ => ⟨_, rfl⟩⟩
  · rw [HeaderName.ofString?_eq_none hname]
    exact ⟨fun h => (hname h.1).elim, fun _ => ⟨_, rfl⟩⟩

theorem appendHeaders_demands (fields : List (String × String)) (h : Headers) :
    Demands (fields.foldlM appendHeader h)
      (∀ field ∈ fields, IsHeaderName field.1 ∧ IsHeaderText field.2)
      ⟨h.entries ++ (Headers.ofFields fields).entries⟩ := by
  induction fields generalizing h with
  | nil =>
    have hnone : h = ⟨h.entries ++ (Headers.ofFields []).entries⟩ := by
      simp [Headers.ofFields]
    rw [← hnone]
    exact (Demands.ok h).of_iff (by simp)
  | cons field fields ih =>
    have hrest := ih (h.append ⟨Text.lower field.1⟩ (.ofVisible field.2))
    have hentries : (h.append ⟨Text.lower field.1⟩ (.ofVisible field.2)).entries ++
        (Headers.ofFields fields).entries =
          h.entries ++ (Headers.ofFields (field :: fields)).entries := by
      simp [Headers.append, Headers.ofFields]
    rw [hentries] at hrest
    rw [List.foldlM_cons]
    exact ((appendHeader_demands h field).bind hrest).of_iff (by rw [List.forall_mem_cons])

/-- The headers with the cookies in one of them. -/
def withCookies (h : Headers) : Headers :=
  if d.cookies.isEmpty then h else h.insert .cookie (.ofVisible d.cookieText)

/-- The headers with a content type, if there is a JSON body and none was given. -/
def withContentType (h : Headers) : Headers :=
  if d.json.isSome && !h.contains .contentType then h.insert .contentType jsonContentType else h

def sentHeaders : Headers := d.withContentType (d.withCookies (Headers.ofFields d.headers))

theorem cookieText_of_isEmpty {d : RequestDraft} (h : d.cookies.isEmpty = true) :
    IsHeaderText d.cookieText := by
  unfold cookieText
  rw [List.isEmpty_iff.mp h]
  exact List.forall_mem_nil _

theorem builtHeaders_demands :
    Demands d.builtHeaders
      ((∀ field ∈ d.headers, IsHeaderName field.1 ∧ IsHeaderText field.2) ∧
        IsHeaderText d.cookieText)
      d.sentHeaders := by
  have hfinish (h : Headers) : Demands
      (if d.json.isSome && !h.contains .contentType then
        pure (h.insert .contentType jsonContentType) else pure h)
      True (d.withContentType h) := by
    unfold withContentType
    split <;> exact .ok _
  unfold builtHeaders
  refine (appendHeaders_demands d.headers .empty).bind (b := d.sentHeaders) ?_
  change Demands _ _ (d.withContentType (d.withCookies (Headers.ofFields d.headers)))
  unfold withCookies
  by_cases hnone : d.cookies.isEmpty = true
  · rw [if_pos hnone, if_pos hnone]
    exact ((Demands.ok _).bind (hfinish _)).of_iff (by simp [cookieText_of_isEmpty hnone])
  · rw [if_neg hnone, if_neg hnone]
    by_cases htext : IsHeaderText d.cookieText
    · rw [HeaderValue.ofString?_eq_some htext]
      exact ((Demands.ok _).bind (hfinish _)).of_iff (by simp [htext])
    · rw [HeaderValue.ofString?_eq_none htext]
      exact ⟨fun h => (htext h).elim, fun _ => ⟨_, rfl⟩⟩

theorem parent_demands :
    Demands d.parent (∀ text ∈ d.traceParent, (TraceContext.parse? text).isSome = true)
      (d.traceParent.bind TraceContext.parse?) := by
  unfold parent
  cases d.traceParent with
  | none => exact (Demands.ok none).of_iff (by simp)
  | some text =>
    simp only [Option.bind_some, Option.mem_some, forall_eq']
    cases TraceContext.parse? text with
    | some context => exact (Demands.ok (some context)).of_iff (by simp)
    | none => exact ⟨by simp, fun _ => ⟨_, rfl⟩⟩

/-! ## The request -/

/-- The demands on a draft as a whole. -/
structure WellFormed : Prop where
  oneBody : d.json = none ∨ d.raw = none
  params : d.params.length = Route.placeholders d.route.toList
  headers : ∀ field ∈ d.headers, IsHeaderName field.1 ∧ IsHeaderText field.2
  cookies : IsHeaderText d.cookieText
  parent : ∀ text ∈ d.traceParent, (TraceContext.parse? text).isSome = true

/-- The request that a draft describes. -/
def described : Request where
  site := ⟨d.method, d.route⟩
  url := d.filled
  query := d.query
  headers := d.sentHeaders
  body := d.payload
  timeout := d.timeout
  deadline := d.deadline
  retryEnabled := d.retryEnabled
  propagate := d.propagate
  traceParent := d.traceParent.bind TraceContext.parse?
  decodeStatuses := d.decodeStatuses

variable {d}

theorem build_of_unwritten {reason : String} (h : d.Unwritten reason) :
    d.build = .error (.serialization reason) := by
  unfold build
  rw [body_of_unwritten h]
  rfl

theorem build_demands (h : ∀ reason, ¬ d.Unwritten reason) :
    Demands d.build d.WellFormed d.described := by
  have hrequest : Demands (.ok d.described) True d.described := .ok _
  have hbuild : Demands d.build _ d.described :=
    (body_demands h).bind <| d.url_demands.bind <| d.builtHeaders_demands.bind <|
      d.parent_demands.bind hrequest
  refine hbuild.of_iff ⟨?_, ?_⟩
  · rintro ⟨oneBody, params, ⟨headers, cookies⟩, parent, -⟩
    exact ⟨oneBody, params, headers, cookies, parent⟩
  · rintro ⟨oneBody, params, headers, cookies, parent⟩
    exact ⟨oneBody, params, ⟨headers, cookies⟩, parent, trivial⟩

theorem not_unwritten_of_build {request : Request} (h : d.build = .ok request) (reason : String) :
    ¬ d.Unwritten reason := by
  intro hunwritten
  rw [build_of_unwritten hunwritten] at h
  cases h

theorem eq_described_of_build {request : Request} (h : d.build = .ok request) :
    request = d.described :=
  ((build_demands (not_unwritten_of_build h)).of_ok h).2

theorem exists_build_iff :
    (∃ request, d.build = .ok request) ↔ d.WellFormed ∧ ∀ reason, ¬ d.Unwritten reason := by
  constructor
  · rintro ⟨request, h⟩
    have hwritten := not_unwritten_of_build h
    exact ⟨((build_demands hwritten).of_ok h).1, hwritten⟩
  · rintro ⟨hformed, hwritten⟩
    exact ⟨d.described, (build_demands hwritten).met hformed⟩

theorem build_eq_serialization_iff {reason : String} :
    d.build = .error (.serialization reason) ↔ d.Unwritten reason := by
  refine ⟨fun h => ?_, build_of_unwritten⟩
  by_contra hwritten
  by_cases hother : ∃ reason, d.Unwritten reason
  · obtain ⟨reason', hreason'⟩ := hother
    rw [build_of_unwritten hreason'] at h
    cases h
    exact hwritten hreason'
  · exact (build_demands (not_exists.mp hother)).ne_serialization reason h

theorem exists_usage_iff :
    (∃ reason, d.build = .error (.usage reason)) ↔
      ¬ d.WellFormed ∧ ∀ reason, ¬ d.Unwritten reason := by
  constructor
  · rintro ⟨reason, h⟩
    have hwritten (reason' : String) : ¬ d.Unwritten reason' := by
      intro hunwritten
      rw [build_of_unwritten hunwritten] at h
      cases h
    exact ⟨(build_demands hwritten).exists_usage_iff.mp ⟨reason, h⟩, hwritten⟩
  · rintro ⟨hformed, hwritten⟩
    exact (build_demands hwritten).unmet hformed

variable (d)

/-- The values of a header of the request: those given with its name, and the content type that a
JSON body brings if none is given. -/
theorem getAll_sentHeaders {name : HeaderName} (hname : name ≠ .cookie) :
    d.sentHeaders.getAll name = valuesUnder d.headers name ++
      if name = .contentType ∧ d.json.isSome = true ∧ valuesUnder d.headers .contentType = []
      then [jsonContentType] else [] := by
  have hcookies (n : HeaderName) (hn : n ≠ .cookie) :
      (d.withCookies (Headers.ofFields d.headers)).getAll n = valuesUnder d.headers n := by
    unfold withCookies
    split
    · exact Headers.getAll_ofFields d.headers n
    · rw [Headers.getAll_insert, if_neg hn.symm]
      exact Headers.getAll_ofFields d.headers n
  have hbrings : (d.json.isSome &&
      !(d.withCookies (Headers.ofFields d.headers)).contains .contentType) = true ↔
        d.json.isSome = true ∧ valuesUnder d.headers .contentType = [] := by
    rw [Bool.and_eq_true, Bool.not_eq_true', Headers.contains_eq_false_iff,
      hcookies .contentType (by decide)]
  unfold sentHeaders withContentType
  by_cases hjson : d.json.isSome = true ∧ valuesUnder d.headers .contentType = []
  · rw [if_pos (hbrings.mpr hjson), Headers.getAll_insert]
    by_cases htype : name = .contentType
    · rw [if_pos htype.symm, if_pos ⟨htype, hjson⟩, htype, hjson.2, List.nil_append]
    · rw [if_neg (Ne.symm htype), if_neg (fun h => htype h.1), hcookies name hname,
        List.append_nil]
  · rw [if_neg (mt hbrings.mp hjson), if_neg (fun h => hjson h.2), hcookies name hname,
      List.append_nil]

end RequestDraft

/-! ## Short requests -/

namespace Request

open Http RequestDraft

/-- A short request can be made if its route has no place for a parameter, and has the route as its
address. -/
theorem short_demands (method : Http.Method) (route : String) (body : Option Json) :
    Demands (short method route body) (Route.occurrences route = 0)
      { site := ⟨method, route⟩
        url := route
        query := []
        headers := body.elim .empty fun _ => Headers.empty.insert .contentType jsonContentType
        body := body.map fun value => Bytes.ofString value.text
        timeout := none
        deadline := none
        retryEnabled := true
        propagate := true
        traceParent := none
        decodeStatuses := [] } := by
  have hplaces : Route.placeholders route.toList = Route.occurrences route :=
    Route.placeholders_eq route
  let d : RequestDraft :=
    { new method route with json := body.map fun value => .ok (Bytes.ofString value.text) }
  have hdraft : body.elim (new method route) (new method route).setJson = d := by
    cases body <;> rfl
  have hbuild : Demands d.build d.WellFormed d.described :=
    build_demands fun reason h => by cases body <;> cases h.1
  unfold short
  rw [hdraft]
  refine ⟨fun h => ?_, fun h => hbuild.unmet fun hformed => ?_⟩
  · have hnone : Route.placeholders route.toList = ([] : List (List Char)).length :=
      hplaces.trans h
    have hformed : d.WellFormed :=
      ⟨Or.inr rfl, hnone.symm, nofun, cookieText_of_isEmpty rfl, nofun⟩
    have hfilled : d.filled = route := by
      change String.ofList (Route.fill (Route.pieces route.toList) []) = route
      rw [← Route.substitute_eq_fill hnone, Route.substitute, String.ofList_toList]
    rw [hbuild.met hformed, described, hfilled]
    cases body <;> rfl
  · exact h (hplaces.symm.trans hformed.params.symm)

end Request

end ServiceCall
