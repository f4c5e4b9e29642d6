import ServiceCall.Proofs.Call.Checks
import ServiceCall.Proofs.Call.Worlds
import ServiceCall.Proofs.Json.Values

/-!
# Bodies that come back

A request that carries a JSON value, and a server that sends its body back: the payload of the
response is the value.
-/

namespace ServiceCall

variable {draft : RequestDraft} {request : Request} {v : Json}

theorem RequestDraft.body_setJson (h : (draft.setJson v).build = .ok request) :
    request.body = some (Bytes.ofString v.text) := by
  rw [eq_described_of_build h]
  rfl

theorem Client.outcome_of_payload {α : Type} {decode : Decoder α} {data : α} {answer : Answer}
    (hstatus : answer.status.isSuccess = true) (hcontent : answer.status ≠ .noContent)
    (h : decode answer.status answer.body = .ok data) (client : Client) (request : Request)
    (number : Nat) (record : Option ConnRecord) :
    client.outcome request decode number answer record =
      .ok ⟨data, answer.body, answer.status, answer.headers, .zero, number, record⟩ := by
  have hclass : answer.status.toClass ≠ .noContent := by
    unfold Http.Status.toClass
    rw [if_neg hcontent, if_pos hstatus]
    decide
  have hdecodes : request.decodes answer.status = true := by
    unfold Request.decodes
    simp [hstatus, hcontent]
  unfold Client.outcome
  rw [if_neg hclass, if_pos hdecodes]
  simp only [h]

/-- A server that sends back the body it gets, with a success that is not 204, gives back the
value. Only the order of fields may differ, and it does not if they were in order before. -/
theorem json_echoed (hv : v.Plain) (hdepth : v.depth ≤ Json.Cursor.maxDepth)
    (hbuild : (draft.setJson v).build = .ok request) {status : Http.Status}
    (hstatus : status.isSuccess = true) (hcontent : status ≠ .noContent) (client : Client)
    (target : Target) (trace : TraceContext) (number : Nat) (headers : Http.Headers)
    (record : Option ConnRecord) :
    ∃ response, client.outcome request Decoder.json number
        ⟨status, headers, (client.physicalRequest request target trace).body⟩ record =
          .ok response ∧
      v.Same response.data ∧ (v.InOrder → response.data = v) := by
  have hbody : (client.physicalRequest request target trace).body = Bytes.ofString v.text := by
    unfold Client.physicalRequest
    rw [RequestDraft.body_setJson hbuild]
    rfl
  have hdecode : Decoder.json status (Bytes.ofString v.text) = .ok v.ordered := by
    unfold Decoder.json
    rw [Json.parse_text hv hdepth]
    rfl
  rw [hbody]
  exact ⟨_, Client.outcome_of_payload hstatus hcontent hdecode client request number record,
    Json.same_ordered hv, Json.ordered_of_inOrder⟩

/-- Both ends of the whole numbers, empty members, and names that need escapes or are not ASCII. -/
def Json.varied : Json :=
  .object [
    ("", .null),
    ("\n\"\\/", .array [.number (.integer ⟨-9223372036854775808, by decide, by decide⟩),
      .number (.integer ⟨18446744073709551615, by decide, by decide⟩), .array []]),
    ("\u00e9\u2028", .object [("\x1f", .string "\ud7ff\ue000😀"), ("b", .bool true),
      ("c", .object [])])]

theorem Json.plain_varied : varied.Plain := by
  unfold varied Plain
  simp

theorem Json.inOrder_varied : varied.InOrder := by
  unfold varied InOrder
  simp [-String.lt_iff_ltb]

theorem json_echoed_varied : ∃ request response,
    ((RequestDraft.new .post "/echo").setJson .varied).build = .ok request ∧
      Settings.patient.plainClient.outcome request Decoder.json 1 ⟨.ok, .empty,
        (Settings.patient.plainClient.physicalRequest request .plain
          (.root (.ofTraceDraw 0) (.ofSpanDraw 0))).body⟩ none = .ok response ∧
      response.data = .varied := by
  have hbuild : ((RequestDraft.new .post "/echo").setJson .varied).build = .ok _ := rfl
  have hdepth : Json.varied.depth ≤ Json.Cursor.maxDepth := by decide
  have hstatus : Http.Status.ok.isSuccess = true := rfl
  obtain ⟨response, houtcome, -, hdata⟩ := json_echoed Json.plain_varied hdepth hbuild hstatus
    (by decide) Settings.patient.plainClient .plain (.root (.ofTraceDraw 0) (.ofSpanDraw 0)) 1
    .empty none
  exact ⟨_, response, hbuild, houtcome, hdata Json.inOrder_varied⟩

end ServiceCall
