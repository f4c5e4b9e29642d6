import ServiceCall.Proofs.Call.Decisions
import ServiceCall.Proofs.Call.Worlds

/-!
# What an answer means

The status of an answer is looked at in four places: for its class, for whether it carries a
payload, for whether another attempt may follow and for its severity. They agree on every status,
whatever the request has decoded and whatever its decoder does. The decoder has a say only where
there is a payload.
-/

namespace ServiceCall

namespace Http.Status

theorem eq_noContent_iff (s : Status) : s = noContent ↔ s.code = 204 := by
  obtain ⟨code, lower, upper⟩ := s
  simp [noContent]

theorem isSuccess_iff (s : Status) : s.isSuccess = true ↔ 200 ≤ s.code ∧ s.code ≤ 299 := by
  simp [isSuccess]

theorem isServerError_iff (s : Status) :
    s.isServerError = true ↔ 500 ≤ s.code ∧ s.code ≤ 599 := by
  simp [isServerError]

theorem toClass_eq_noContent_iff (s : Status) : s.toClass = .noContent ↔ s.code = 204 := by
  rw [← eq_noContent_iff]
  unfold toClass
  split
  · simp [*]
  · simp only [*, iff_false]
    split
    · exact nofun
    · split <;> exact nofun

end Http.Status

open Http (Status)

namespace Request

/-- The request wants the payload of answers with this status. -/
def Wants (r : Request) (s : Status) : Prop :=
  (200 ≤ s.code ∧ s.code ≤ 299) ∨ s ∈ r.decodeStatuses

theorem decodes_iff (r : Request) {s : Status} (h : s.code ≠ 204) :
    r.decodes s = true ↔ r.Wants s := by
  unfold decodes Wants
  rw [Bool.or_eq_true, Bool.and_eq_true, Status.isSuccess_iff, List.contains_iff_mem]
  simp [Status.eq_noContent_iff, h]

end Request

namespace Client

variable {α : Type} (c : Client) (r : Request) (decode : Decoder α) (number : Nat)
  (answer : Answer) (connection : Option ConnRecord)

/-- What an attempt makes of an answer, by the code of its status. -/
inductive Judges : Except CallError (Response α) → Prop
  | noContent (h : answer.status.code = 204) : Judges (.error (.noContent r.site number))
  | decoded {data : α} (hcode : answer.status.code ≠ 204) (hwants : r.Wants answer.status)
    (h : decode answer.status answer.body = .ok data) :
    Judges (.ok ⟨data, answer.body, answer.status, answer.headers, .zero, number, connection⟩)
  | undecodable {reason : String} (hcode : answer.status.code ≠ 204)
    (hwants : r.Wants answer.status) (h : decode answer.status answer.body = .error reason) :
    Judges (.error
      (.undecodable r.site answer.status number (Utf8.decodeLossy answer.body) reason))
  | rejected (hcode : answer.status.code ≠ 204) (hwants : ¬ r.Wants answer.status) :
    Judges (.error (.http
      { site := r.site
        status := answer.status
        attempts := number
        concluded := false
        severity := .expected
        body := Utf8.decodeLossy answer.body
        headers := answer.headers }))

variable {c r decode number answer connection}

theorem outcome_judges :
    Judges r decode number answer connection
      (c.outcome r decode number answer connection) := by
  unfold outcome
  split
  · rename_i hclass
    exact .noContent ((Status.toClass_eq_noContent_iff _).mp hclass)
  · rename_i hclass
    have hcode : answer.status.code ≠ 204 := fun h =>
      hclass ((Status.toClass_eq_noContent_iff _).mpr h)
    split
    · rename_i hdecodes
      have hwants : r.Wants answer.status := (r.decodes_iff hcode).mp hdecodes
      split
      · rename_i data hdata
        exact .decoded hcode hwants hdata
      · rename_i reason hreason
        exact .undecodable hcode hwants hreason
    · rename_i hdecodes
      have hwants : ¬ r.Wants answer.status := fun h =>
        hdecodes ((r.decodes_iff hcode).mpr h)
      exact .rejected hcode hwants

/-- The four cases exclude each other. -/
theorem Judges.unique {result result' : Except CallError (Response α)}
    (h : Judges r decode number answer connection result)
    (h' : Judges r decode number answer connection result') : result = result' := by
  cases h with
  | noContent hcode =>
    cases h' with
    | noContent => rfl
    | decoded hcode' | undecodable hcode' | rejected hcode' => exact absurd hcode hcode'
  | decoded hcode hwants hdata =>
    cases h' with
    | noContent hcode' => exact absurd hcode' hcode
    | decoded _ _ hdata' =>
      cases hdata.symm.trans hdata'
      rfl
    | undecodable _ _ hreason => cases hdata.symm.trans hreason
    | rejected _ hwants' => exact absurd hwants hwants'
  | undecodable hcode hwants hreason =>
    cases h' with
    | noContent hcode' => exact absurd hcode' hcode
    | decoded _ _ hdata => cases hreason.symm.trans hdata
    | undecodable _ _ hreason' =>
      cases hreason.symm.trans hreason'
      rfl
    | rejected _ hwants' => exact absurd hwants hwants'
  | rejected hcode hwants =>
    cases h' with
    | noContent hcode' => exact absurd hcode' hcode
    | decoded _ hwants' | undecodable _ hwants' => exact absurd hwants' hwants
    | rejected => rfl

/-- Decoders that agree on a payload, where there is one, find the same. -/
theorem Judges.congr {decode' : Decoder α} {result : Except CallError (Response α)}
    (h : Judges r decode number answer connection result)
    (hagree : r.Wants answer.status → answer.status.code ≠ 204 →
      decode' answer.status answer.body = decode answer.status answer.body) :
    Judges r decode' number answer connection result := by
  cases h with
  | noContent hcode => exact .noContent hcode
  | decoded hcode hwants hdata =>
    exact .decoded hcode hwants ((hagree hwants hcode).trans hdata)
  | undecodable hcode hwants hreason =>
    exact .undecodable hcode hwants ((hagree hwants hcode).trans hreason)
  | rejected hcode hwants => exact .rejected hcode hwants

theorem Judges.not_wants {failure : HttpFailure}
    (h : Judges r decode number answer connection (.error (.http failure))) :
    ¬ r.Wants failure.status := by
  cases h with
  | rejected hcode hwants => exact hwants

/-- An attempt makes exactly this of an answer. Nothing but a payload is shown to the decoder, a
rejection is neither a success nor a status that the request has decoded, and an error is worth
another attempt exactly if the status is a 5xx that the request does not have decoded. -/
theorem outcome_iff_judges {α : Type} (c : Client) (r : Request) (decode : Decoder α)
    (number : Nat) (answer : Answer) (connection : Option ConnRecord) :
    let result := c.outcome r decode number answer connection
    (∀ result', result = result' ↔ Judges r decode number answer connection result') ∧
      (∀ decode' : Decoder α,
        (r.decodes answer.status = true → answer.status.code ≠ 204 →
          decode' answer.status answer.body = decode answer.status answer.body) →
        c.outcome r decode' number answer connection = result) ∧
      (∀ failure, result = .error (.http failure) →
        ¬ (200 ≤ failure.status.code ∧ failure.status.code ≤ 299) ∧
          failure.status ∉ r.decodeStatuses) ∧
      ∀ error, result = .error error →
        (error.isRetryable = true ↔
          500 ≤ answer.status.code ∧ answer.status.code ≤ 599 ∧
            answer.status ∉ r.decodeStatuses) := by
  intro result
  have hjudges : Judges r decode number answer connection result := outcome_judges
  refine ⟨?_, ?_, ?_, ?_⟩
  · intro result'
    constructor
    · rintro rfl
      exact hjudges
    · exact hjudges.unique
  · intro decode' hagree
    have hsame : Judges r decode' number answer connection result :=
      hjudges.congr fun hwants hcode => hagree ((r.decodes_iff hcode).mpr hwants) hcode
    exact outcome_judges.unique hsame
  · intro failure hfailure
    exact not_or.mp (hfailure ▸ hjudges).not_wants
  · intro error herror
    obtain ⟨-, hretryable⟩ := Call.outcome_error herror
    rw [hretryable, Status.isServerError_iff, and_assoc]

/-- A 503 whose payload cannot be read is not worth another attempt if the request has it decoded,
and is if it has not. -/
theorem outcome_iff_judges_of_unavailable :
    let client := Settings.standard.plainClient
    let unavailable : Status := ⟨503, by decide, by decide⟩
    let answer : Answer := ⟨unavailable, .empty, []⟩
    let decode : Decoder Unit := fun _ _ => .error "no payload"
    let wanted : Request := { Request.plain with decodeStatuses := [unavailable] }
    (∃ error, client.outcome wanted decode 1 answer none = .error error ∧
      error.isRetryable = false) ∧
    ∃ failure, client.outcome .plain decode 1 answer none = .error (.http failure) ∧
      failure.status.isServerError = true := by
  intro client unavailable answer decode wanted
  obtain ⟨hwanted, -, -, hretryable⟩ := outcome_iff_judges client wanted decode 1 answer none
  obtain ⟨hplain, -⟩ := outcome_iff_judges client .plain decode 1 answer none
  have hunread := (hwanted _).mpr (.undecodable (by decide) (Or.inr (by decide)) rfl)
  refine ⟨⟨_, hunread, ?_⟩, ⟨_, (hplain _).mpr (.rejected (by decide) ?_), rfl⟩⟩
  · rw [Bool.eq_false_iff, ne_eq, hretryable _ hunread]
    rintro ⟨-, -, hunwanted⟩
    exact hunwanted (by decide)
  · rintro (hsuccess | hwants)
    · exact absurd hsuccess (by decide)
    · cases hwants

end Client

end ServiceCall
