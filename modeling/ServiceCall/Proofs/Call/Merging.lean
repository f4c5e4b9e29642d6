import ServiceCall.Proofs.Call.Checks
import ServiceCall.Proofs.Call.Rounds
import ServiceCall.Proofs.Results
import ServiceCall.Proofs.Text.Unicode
import ServiceCall.Proofs.Trace.Written

/-!
# What an attempt sends

The headers of a client, those of the request and the trace of the attempt are laid over each
other, name by name. Between the attempts of a call only the span changes.
-/

namespace ServiceCall

open Http

/-! ## Headers laid over each other -/

namespace Http.Headers

theorem getAll_filter (h : Headers) (p : HeaderName → Bool) (name : HeaderName) :
    getAll ⟨h.entries.filter fun (n, _) => p n⟩ name = if p name then h.getAll name else [] := by
  unfold getAll
  rw [List.filterMap_filter]
  by_cases hp : p name = true
  · rw [if_pos hp]
    refine List.filterMap_congr fun (n, v) _ => ?_
    by_cases hn : n = name
    · simp [hn, hp]
    · simp [hn]
  · rw [if_neg hp]
    refine List.filterMap_eq_nil_iff.mpr fun (n, v) _ => ?_
    by_cases hn : n = name
    · simp [hn, hp]
    · simp [hn]

theorem getAll_overlay (base top : Headers) (name : HeaderName) :
    (base.overlay top).getAll name =
      if top.getAll name = [] then base.getAll name else top.getAll name := by
  have hunder : getAll ⟨base.entries.filter fun (n, _) => !top.contains n⟩ name =
      if (!top.contains name) = true then base.getAll name else [] :=
    getAll_filter base (fun n => !top.contains n) name
  have happend : (base.overlay top).getAll name =
      getAll ⟨base.entries.filter fun (n, _) => !top.contains n⟩ name ++ top.getAll name :=
    List.filterMap_append
  rw [happend, hunder]
  by_cases hnone : top.getAll name = []
  · have hcontains := (contains_eq_false_iff top name).mpr hnone
    rw [if_pos (by rw [hcontains]; rfl), if_pos hnone, hnone, List.append_nil]
  · have hcontains := mt (contains_eq_false_iff top name).mp hnone
    rw [if_neg (by simpa using hcontains), if_neg hnone, List.nil_append]

theorem insert_insert (h : Headers) (name : HeaderName) (v w : HeaderValue) :
    (h.insert name v).insert name w = h.insert name w := by
  simp [insert, append, remove]

end Http.Headers

/-! ## The written trace -/

theorem TraceContext.isVisible_of_mem_chars (t : TraceContext) :
    ∀ c ∈ t.chars, Utf8.IsVisible c := by
  have hhex : ∀ width n, ∀ c ∈ Text.hexDigits width n, Utf8.IsVisible c := by
    intro width n c hc
    have hall : ∀ d < 16, Utf8.IsVisible (Text.hexDigit d) := by decide
    obtain ⟨d, hd, rfl⟩ := (Text.isHexDigit_of_mem hc).exists_hexDigit
    exact hall d hd
  have hmarks : ∀ c ∈ ['0', '-'], Utf8.IsVisible c := by decide
  intro c hc
  unfold chars at hc
  simp only [List.mem_append, List.mem_cons, List.not_mem_nil, or_false] at hc
  rcases hc with (((hc | hc | hc) | hc) | hc | hc) | hc | hc
  all_goals first | exact hhex _ _ c hc | exact hmarks c (by simp [hc])

theorem TraceContext.text?_ofVisible (t : TraceContext) :
    (HeaderValue.ofVisible t.text).text? = some t.text := by
  have htext : (Bytes.ofString t.text).visibleText? = some t.text := by
    unfold text
    exact Utf8.visibleText?_ofString t.isVisible_of_mem_chars
  rw [HeaderValue.text?, HeaderValue.ofVisible, htext]

/-- The values of the header are one text, from which the context is read. -/
def Http.Headers.Tells (h : Headers) (t : TraceContext) : Prop :=
  ∃ value text, h.getAll .traceparent = [value] ∧ value.text? = some text ∧
    TraceContext.parse? text = some t

/-! ## What is sent -/

/-- What of a request is sent in an attempt of a call that continues `parent`. -/
structure Client.Sends (client : Client) (request : Request) (parent : TraceContext)
    (sent : PhysicalRequest) : Prop where
  method : sent.method = request.site.method
  uri : (client.target request).map (·.uri) = .ok sent.uri
  body : sent.body = request.body.getD []
  traced : request.propagate = true →
    ∃ t, sent.headers.Tells t ∧ t.trace = parent.trace ∧ t.flags = parent.flags
  own : ∀ name, ¬ (request.propagate = true ∧ name = .traceparent) →
    request.headers.getAll name ≠ [] → sent.headers.getAll name = request.headers.getAll name
  defaults : ∀ name, ¬ (request.propagate = true ∧ name = .traceparent) →
    request.headers.getAll name = [] →
      sent.headers.getAll name = client.defaultHeaders.getAll name

/-- The second request is the first one, but for the span of the trace that it tells of. -/
def PhysicalRequest.Again (p q : PhysicalRequest) (traced : Bool) : Prop :=
  if traced then
    ∃ t span, p.headers.getAll .traceparent = [.ofVisible t.text] ∧
      q = { p with
        headers := p.headers.insert .traceparent (.ofVisible (TraceContext.child t span).text) }
  else q = p

theorem Client.getAll_sentHeaders (c : Client) (r : Request) (trace : TraceContext)
    (name : HeaderName) : (c.sentHeaders r trace).getAll name =
      if r.propagate = true ∧ name = .traceparent then [.ofVisible trace.text]
      else if r.headers.getAll name = [] then c.defaultHeaders.getAll name
      else r.headers.getAll name := by
  unfold sentHeaders
  by_cases hpropagate : r.propagate = true
  · rw [if_pos hpropagate, Headers.getAll_insert, Headers.getAll_overlay]
    by_cases hname : name = .traceparent
    · rw [if_pos hname.symm, if_pos ⟨hpropagate, hname⟩]
    · have hother : ¬ (r.propagate = true ∧ name = .traceparent) := fun h => hname h.2
      rw [if_neg (Ne.symm hname), if_neg hother]
  · have hother : ¬ (r.propagate = true ∧ name = .traceparent) := fun h => hpropagate h.1
    rw [if_neg hpropagate, if_neg hother, Headers.getAll_overlay]

namespace Call

variable {client : Client} {request : Request} {now : Instant} {root : TraceContext} {c : Call}
  {a b : Attempt} {span span' : TraceId 64}

theorem exists_of_start (h : start client request now root = .ok c) :
    ∃ target, client.target request = .ok target ∧ c = startAt client request target now root := by
  obtain ⟨target, htarget, rfl⟩ := exists_of_map_ok h
  exact ⟨target, htarget, rfl⟩

theorem sends_physicalRequest (h : start client request now root = .ok c)
    (ha : a.trace = c.parent.child span) :
    client.Sends request (request.traceParent.getD root) (c.physicalRequest a) := by
  obtain ⟨target, htarget, rfl⟩ := exists_of_start h
  have hheaders := client.getAll_sentHeaders request a.trace
  refine ⟨rfl, by rw [htarget]; rfl, rfl, ?_, ?_, ?_⟩
  · intro hpropagate
    have hone := hheaders .traceparent
    rw [if_pos ⟨hpropagate, rfl⟩] at hone
    refine ⟨a.trace, ⟨_, _, hone, a.trace.text?_ofVisible, a.trace.parse?_text⟩, ?_⟩
    rw [ha]
    exact ⟨rfl, rfl⟩
  · intro name hname hown
    exact (hheaders name).trans (by rw [if_neg hname, if_neg hown])
  · intro name hname hown
    exact (hheaders name).trans (by rw [if_neg hname, if_pos hown])

theorem again_physicalRequest (ha : a.trace = c.parent.child span)
    (hb : b.trace = c.parent.child span') :
    (c.physicalRequest a).Again (c.physicalRequest b) c.request.propagate := by
  unfold PhysicalRequest.Again physicalRequest Client.physicalRequest Client.sentHeaders
  by_cases hpropagate : c.request.propagate = true
  · rw [if_pos hpropagate]
    simp only [if_pos hpropagate, Headers.insert_insert]
    refine ⟨a.trace, span', ?_, ?_⟩
    · rw [Headers.getAll_insert, if_pos rfl]
    · rw [ha, hb]
      rfl
  · rw [if_neg hpropagate]
    simp only [if_neg hpropagate]

end Call

end ServiceCall
