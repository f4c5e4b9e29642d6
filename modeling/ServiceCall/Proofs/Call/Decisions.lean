import ServiceCall.Call.Run

/-!
# What a call decides

The check before an attempt, the error that an attempt makes of its ending, and the verdict on
that error, each as the conditions that it comes down to.
-/

namespace ServiceCall.Call

/-! ## Before an attempt -/

theorem fits_iff (c : Call) (now : Instant) (delay : Duration) :
    c.fits now delay = true ↔
      ∀ d, c.deadline? = some d → ∃ t, now.after? delay = some t ∧ t < d := by
  unfold fits
  cases c.deadline? with
  | none => simp
  | some d => simp [Option.any_eq_true]

theorem gate_admitted_iff (c : Call) (cooldown : Cooldown) (made : Nat) (now : Instant)
    (span : TraceId 64) (a : Attempt) :
    c.gate cooldown made now span = .admitted a ↔
      cooldown.remaining? now = none ∧ (∀ d, c.deadline? = some d → now < d) ∧
        a = c.nextAttempt made now span := by
  unfold gate
  cases hr : cooldown.remaining? now with
  | some r => simp
  | none =>
    cases hd : c.deadline? with
    | none => simp [eq_comm]
    | some d =>
      by_cases h : d ≤ now
      · have : ¬ now < d := by rw [Instant.lt_iff]; rw [Instant.le_iff] at h; omega
        simp [h, this]
      · have : now < d := (Instant.not_le d now).mp h
        simp [h, this, eq_comm]

theorem gate_refused_iff (c : Call) (cooldown : Cooldown) (made : Nat) (now : Instant)
    (span : TraceId 64) (error : CallError) :
    c.gate cooldown made now span = .refused error ↔
      (∃ r, cooldown.remaining? now = some r ∧ error = .explicitBackoff c.request.site r made) ∨
        cooldown.remaining? now = none ∧ (∃ d, c.deadline? = some d ∧ d ≤ now) ∧
          error = .deadlineExceeded c.request.site made := by
  unfold gate
  cases hr : cooldown.remaining? now with
  | some r => simp [eq_comm]
  | none =>
    cases hd : c.deadline? with
    | none => simp
    | some d => by_cases h : d ≤ now <;> simp [h, eq_comm]

/-! ## What an attempt makes of its ending -/

/-- The endings that another attempt may follow: trouble with the connection, a spent budget
while the deadline of the call is ahead, and a 5xx that the request does not have decoded. -/
def Retriable (c : Call) (a : Attempt) : Ending → Prop
  | .broken .. => True
  | .answered answer .. =>
    answer.status.isServerError = true ∧ answer.status ∉ c.request.decodeStatuses
  | .cutOff _ => ∀ t d, a.cutoff = some t → c.deadline? = some d → t < d

theorem outcome_error {α : Type} {client : Client} {r : Request} {decode : Decoder α}
    {number : Nat} {answer : Answer} {record : Option ConnRecord} {error : CallError}
    (h : client.outcome r decode number answer record = .error error) :
    error.attempts? = some number ∧
      (error.isRetryable = true ↔
        answer.status.isServerError = true ∧ answer.status ∉ r.decodeStatuses) := by
  unfold Client.outcome at h
  have no_content : answer.status.toClass = .noContent → answer.status.isServerError = false := by
    unfold Http.Status.toClass
    split
    · rename_i h204; rw [h204]; intro _; rfl
    · split
      · simp
      · split <;> simp
  have success : answer.status.isSuccess = true → answer.status.isServerError = false := by
    simp only [Http.Status.isSuccess, Http.Status.isServerError, Bool.and_eq_true,
      decide_eq_true_eq, Bool.and_eq_false_iff, decide_eq_false_iff_not]
    omega
  split at h
  · rename_i h204
    cases h
    simp [CallError.attempts?, CallError.isRetryable, no_content h204]
  · split at h
    · rename_i hd
      have hnot : ¬ (answer.status.isServerError = true ∧ answer.status ∉ r.decodeStatuses) := by
        rintro ⟨hs, hr⟩
        simp only [Request.decodes, Bool.or_eq_true, Bool.and_eq_true, List.contains_eq_mem,
          decide_eq_true_eq] at hd
        rcases hd with ⟨hs', _⟩ | hr'
        · rw [success hs'] at hs; cases hs
        · exact hr hr'
      split at h
      · cases h
      · cases h
        simpa [CallError.attempts?, CallError.isRetryable] using hnot
    · rename_i hd
      cases h
      simp only [Request.decodes, Bool.or_eq_true, not_or, List.contains_eq_mem,
        decide_eq_true_eq] at hd
      simp [CallError.attempts?, CallError.isRetryable, hd.2]

theorem cutoffError_cases (c : Call) (a : Attempt) :
    (∃ t d, a.cutoff = some t ∧ c.deadline? = some d ∧ d ≤ t ∧
        c.cutoffError a = .deadlineExceeded c.request.site a.number) ∨
      (∀ t d, a.cutoff = some t → c.deadline? = some d → t < d) ∧
        c.cutoffError a = .timeout c.request.site a.number a.budget := by
  unfold cutoffError
  split
  · rename_i t d ht hd
    by_cases h : d ≤ t
    · exact Or.inl ⟨t, d, ht, hd, h, if_pos h⟩
    · refine Or.inr ⟨?_, if_neg h⟩
      intro t' d' ht' hd'
      cases ht.symm.trans ht'
      cases hd.symm.trans hd'
      exact (Instant.not_le d t).mp h
  · rename_i hno
    refine Or.inr ⟨?_, rfl⟩
    intro t d ht hd
    exact absurd hd (hno t d ht)

/-- Every error of an attempt counts the attempt, and it is retryable exactly after an ending
that another attempt may follow. -/
theorem attemptResult_error {α : Type} {c : Call} {decode : Decoder α} {a : Attempt}
    {ending : Ending} {error : CallError}
    (h : c.attemptResult decode a ending = .error error) :
    error.attempts? = some a.number ∧ (error.isRetryable = true ↔ c.Retriable a ending) := by
  cases ending with
  | answered answer record elapsed => exact outcome_error h
  | broken connecting cause record =>
    cases h
    exact ⟨rfl, by simp [Retriable, CallError.isRetryable]⟩
  | cutOff record =>
    cases h
    rcases c.cutoffError_cases a with ⟨t, d, ht, hd, hle, he⟩ | ⟨hlt, he⟩
    · rw [he]
      refine ⟨rfl, ?_⟩
      simp only [CallError.isRetryable, Bool.false_eq_true, Retriable, false_iff]
      intro hall
      exact (Instant.not_le d t).mpr (hall t d ht hd) hle
    · rw [he]
      exact ⟨rfl, by simpa [CallError.isRetryable, Retriable] using hlt⟩

theorem outcome_retryable {α : Type} {client : Client} {r : Request} {decode : Decoder α}
    {number : Nat} {answer : Answer} {record : Option ConnRecord} {error : CallError}
    (h : client.outcome r decode number answer record = .error error)
    (hr : error.isRetryable = true) :
    ∃ failure, error = .http failure ∧ failure.site = r.site ∧ failure.attempts = number ∧
      failure.status.isServerError = true := by
  unfold Client.outcome at h
  split at h
  · cases h; cases hr
  · split at h
    · split at h
      · cases h
      · cases h; cases hr
    · cases h
      exact ⟨_, rfl, rfl, rfl, hr⟩

/-- A retryable error of an attempt is trouble with the network, a spent budget or a 5xx. -/
theorem attemptResult_retryable {α : Type} {c : Call} {decode : Decoder α} {a : Attempt}
    {ending : Ending} {error : CallError}
    (h : c.attemptResult decode a ending = .error error) (hr : error.isRetryable = true) :
    (∃ connecting cause, error = .network c.request.site a.number connecting cause) ∨
      error = .timeout c.request.site a.number a.budget ∨
      ∃ failure, error = .http failure ∧ failure.site = c.request.site ∧
        failure.attempts = a.number ∧ failure.status.isServerError = true := by
  cases ending with
  | answered answer record elapsed => exact Or.inr (Or.inr (outcome_retryable h hr))
  | broken connecting cause record => cases h; exact Or.inl ⟨connecting, cause, rfl⟩
  | cutOff record =>
    cases h
    rcases c.cutoffError_cases a with ⟨t, d, -, -, -, he⟩ | ⟨-, he⟩
    · rw [he] at hr; cases hr
    · exact Or.inr (Or.inl he)

theorem attemptResult_ok {α : Type} {c : Call} {decode : Decoder α} {a : Attempt}
    {ending : Ending} {response : Response α}
    (h : c.attemptResult decode a ending = .ok response) : response.attempts = a.number := by
  cases ending with
  | answered answer record elapsed =>
    change c.client.outcome c.request decode a.number answer record = .ok response at h
    unfold Client.outcome at h
    split at h
    · cases h
    · split at h
      · split at h
        · cases h; rfl
        · cases h
      · cases h
  | broken connecting cause record => cases h
  | cutOff record => cases h

/-! ## After an attempt -/

theorem verdict_retry_iff (c : Call) (number : Nat) (error : CallError) (now : Instant)
    (draw : Schedule.Draw) (delay : Duration) :
    c.verdict number error now draw = .retry delay ↔
      (c.request.retryEnabled = true ∧ error.isRetryable = true ∧
        c.client.predicate error number = true) ∧
      c.client.schedule.delay? draw number = some delay ∧ c.fits now delay = true := by
  unfold verdict
  cases hr : c.request.retryEnabled <;> cases hi : error.isRetryable <;>
    cases hp : c.client.predicate error number <;> simp
  cases hd : c.client.schedule.delay? draw number with
  | none => simp
  | some d =>
    by_cases hf : c.fits now d = true
    · simp only [hf, if_true, Verdict.retry.injEq, Option.some.injEq]
      exact ⟨fun h => ⟨h, h ▸ hf⟩, fun h => h.1⟩
    · simp only [hf, Bool.false_eq_true, if_false, reduceCtorEq, Option.some.injEq, false_iff]
      rintro ⟨rfl, hfits⟩
      exact hf hfits

theorem react_again_iff {α : Type} (c : Call) (decode : Decoder α) (a : Attempt)
    (ending : Ending) (now : Instant) (draw : Schedule.Draw) (delay : Duration) :
    (c.react decode a ending now draw).1 = .again delay ↔
      ∃ error, c.attemptResult decode a ending = .error error ∧
        c.verdict a.number error now draw = .retry delay := by
  unfold react
  cases hr : c.attemptResult decode a ending with
  | ok response => simp
  | error error => cases hv : c.verdict a.number error now draw <;> simp [hv]

theorem react_ended {α : Type} {c : Call} {decode : Decoder α} {a : Attempt}
    {ending : Ending} {now : Instant} {draw : Schedule.Draw}
    {result : Except CallError (Response α)}
    (h : (c.react decode a ending now draw).1 = .ended result) :
    (∃ response, c.attemptResult decode a ending = .ok response ∧
        result = .ok (response.endingAt c now)) ∨
      ∃ error, c.attemptResult decode a ending = .error error ∧
        (∀ delay, c.verdict a.number error now draw ≠ .retry delay) ∧
        result = .error (error.conclude c.client.expectedStatuses) := by
  unfold react at h
  cases hr : c.attemptResult decode a ending with
  | ok response => simp only [hr, Next.ended.injEq] at h; exact Or.inl ⟨response, rfl, h.symm⟩
  | error error =>
    refine Or.inr ⟨error, rfl, ?_⟩
    cases hv : c.verdict a.number error now draw <;>
      simp only [hr, hv, Next.ended.injEq, reduceCtorEq] at h <;>
      exact ⟨by simp, h.symm⟩

theorem react_ended_of_not_retriable {α : Type} {c : Call} (decode : Decoder α) {a : Attempt}
    {ending : Ending} (h : ¬ c.Retriable a ending) (now : Instant) (draw : Schedule.Draw) :
    ∃ result, (c.react decode a ending now draw).1 = .ended result := by
  cases hn : (c.react decode a ending now draw).1 with
  | ended result => exact ⟨result, rfl⟩
  | again delay =>
    obtain ⟨error, herror, hv⟩ := (react_again_iff ..).mp hn
    obtain ⟨⟨-, hretryable, -⟩, -⟩ := (verdict_retry_iff ..).mp hv
    exact absurd ((attemptResult_error herror).2.mp hretryable) h

end ServiceCall.Call
