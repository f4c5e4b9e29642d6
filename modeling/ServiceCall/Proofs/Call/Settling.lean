import ServiceCall.Proofs.Call.Sequence

/-!
# Severities settle at the end

An HTTP failure counts as expected while a retry may follow, and that is how the predicate sees
it. The failure that a call ends with is the one of its last attempt, with its final severity.
-/

namespace ServiceCall

variable {σ α : Type}

namespace CallError

/-- An HTTP failure that may be retried, or another kind of error. -/
def IsProvisional : CallError → Prop
  | .http failure => failure.concluded = false ∧ failure.severity = .expected
  | _ => True

theorem conclude_conclude (expected : ExpectedStatuses) (e : CallError) :
    (e.conclude expected).conclude expected = e.conclude expected := by
  cases e <;> rfl

theorem conclude_eq_http {expected : ExpectedStatuses} {e : CallError} {failure : HttpFailure}
    (h : e.conclude expected = .http failure) :
    ∃ f, e = .http f ∧
      failure = { f with concluded := true, severity := expected.severity f.status true } := by
  cases e with
  | http f => exact ⟨f, rfl, (CallError.http.inj h).symm⟩
  | _ => simp [conclude] at h

end CallError

theorem ExpectedStatuses.severity_concluded (expected : ExpectedStatuses) (s : Http.Status) :
    expected.severity s true =
      if expected.contains s then .expected
      else if 500 ≤ s.code ∧ s.code ≤ 599 then .transient
      else .fatal := by
  simp [severity, Http.Status.isServerError]

namespace Call

/-! ## The failure of an attempt -/

def failureOf (c : Call) (a : Attempt) (answer : Answer) : HttpFailure where
  site := c.request.site
  status := answer.status
  attempts := a.number
  concluded := false
  severity := .expected
  body := Utf8.decodeLossy answer.body
  headers := answer.headers

theorem attemptResult_http {c : Call} {decode : Decoder α} {a : Attempt} {ending : Ending}
    {failure : HttpFailure} (h : c.attemptResult decode a ending = .error (.http failure)) :
    ∃ answer record elapsed, ending = .answered answer record elapsed ∧
      failure = c.failureOf a answer := by
  cases ending with
  | answered answer record elapsed =>
    refine ⟨answer, record, elapsed, rfl, ?_⟩
    simp only [attemptResult, Client.outcome] at h
    split at h
    · simp at h
    · split at h
      · split at h <;> simp at h
      · simp only [Except.error.injEq, CallError.http.injEq] at h
        simp [← h, failureOf, ExpectedStatuses.severity]
  | broken connecting cause record => simp [attemptResult] at h
  | cutOff record =>
    simp only [attemptResult, Except.error.injEq] at h
    rcases c.cutoffError_cases a with ⟨t, d, -, -, -, he⟩ | ⟨-, he⟩ <;> simp [he] at h

theorem provisional_of_attemptResult {c : Call} {decode : Decoder α} {a : Attempt}
    {ending : Ending} {error : CallError} (h : c.attemptResult decode a ending = .error error) :
    error.IsProvisional := by
  cases error with
  | http failure =>
    obtain ⟨answer, record, elapsed, -, rfl⟩ := attemptResult_http h
    exact ⟨rfl, rfl⟩
  | _ => trivial

/-! ## What the predicate is asked -/

/-- The error and the number of an attempt that the predicate is asked about. -/
def question? (c : Call) (decode : Decoder α) (a : Attempt) (ending : Ending) :
    Option (CallError × Nat) :=
  match c.attemptResult decode a ending with
  | .ok _ => none
  | .error error =>
    if c.request.retryEnabled && error.isRetryable then some (error, a.number) else none

def questions (w : World σ) (c : Call) (decode : Decoder α) (fuel made : Nat) (s : σ) :
    List (CallError × Nat) :=
  (c.trials w decode fuel made s).filterMap fun t => c.question? decode t.attempt t.ending

theorem questions_eq (w : World σ) (c : Call) (decode : Decoder α) (fuel made : Nat) (s : σ) :
    c.questions w decode fuel made s = (c.rounds w decode fuel made s).filterMap fun round =>
      c.question? decode round.attempt round.ending :=
  List.filterMap_map

def withPredicate (c : Call) (p : RetryPredicate) : Call :=
  { c with client := { c.client with predicate := p } }

theorem provisional_of_question {c : Call} {decode : Decoder α} {a : Attempt} {ending : Ending}
    {q : CallError × Nat} (h : c.question? decode a ending = some q) : q.1.IsProvisional := by
  unfold question? at h
  split at h
  · simp at h
  · rename_i error herror
    split at h
    · cases h
      exact provisional_of_attemptResult herror
    · simp at h

section

variable {c : Call} {p : RetryPredicate} {decode : Decoder α} {a : Attempt} {ending : Ending}

theorem verdict_withPredicate {error : CallError} {number : Nat}
    (h : c.request.retryEnabled = true → error.isRetryable = true →
      p error number = c.client.predicate error number) (now : Instant) (draw : Schedule.Draw) :
    (c.withPredicate p).verdict number error now draw = c.verdict number error now draw := by
  have hretry : (c.request.retryEnabled && error.isRetryable && p error number) =
      (c.request.retryEnabled && error.isRetryable && c.client.predicate error number) := by
    cases hr : c.request.retryEnabled <;> cases hi : error.isRetryable <;> simp_all
  unfold verdict
  rw [← hretry]
  rfl

theorem react_withPredicate
    (h : ∀ q, c.question? decode a ending = some q → p q.1 q.2 = c.client.predicate q.1 q.2)
    (now : Instant) (draw : Schedule.Draw) :
    (c.withPredicate p).react decode a ending now draw = c.react decode a ending now draw := by
  have hresult : (c.withPredicate p).attemptResult decode a ending =
      c.attemptResult decode a ending := rfl
  unfold react
  rw [hresult]
  unfold question? at h
  cases hr : c.attemptResult decode a ending with
  | ok response => rfl
  | error error =>
    rw [hr] at h
    have hverdict : (c.withPredicate p).verdict a.number error now draw =
        c.verdict a.number error now draw := by
      apply verdict_withPredicate
      intro henabled hretryable
      exact h (error, a.number) (by simp [henabled, hretryable])
    simp only [hverdict]
    rfl

variable {w : World σ} {fuel made : Nat} {s : σ}

theorem turn_withPredicate (hw : ∀ a s, w.attempt (c.withPredicate p) a s = w.attempt c a s)
    (h : ∀ round, c.Makes w made s round → ∀ q,
      c.question? decode round.attempt round.ending = some q →
        p q.1 q.2 = c.client.predicate q.1 q.2) :
    (c.withPredicate p).turn w decode made s = c.turn w decode made s := by
  have hgate : (c.withPredicate p).gate = c.gate := rfl
  unfold turn
  rw [hgate]
  cases hg : c.gate (w.cooldown (w.random s).2) made (w.now (w.random s).2)
    (.ofSpanDraw (w.random s).1) with
  | refused error => rfl
  | admitted a =>
    obtain ⟨hcool, hearly, ha⟩ := (gate_admitted_iff ..).mp hg
    have hmakes : c.Makes w made s (c.roundOf w a s none) := ⟨hcool, hearly, by rw [ha]; rfl⟩
    have hreaction : (c.withPredicate p).reaction w decode a s = c.reaction w decode a s := by
      simp only [reaction, reactionState, attemptState, hw]
      exact react_withPredicate (h _ hmakes) ..
    simp only [hreaction, roundOf, reactionState, attemptState, hw]

theorem Makes.mem_questions {round : Round} (hm : c.Makes w made s round) {q : CallError × Nat}
    (hq : c.question? decode round.attempt round.ending = some q) :
    q ∈ c.questions w decode (fuel + 1) made s := by
  have hsame : ∀ round', c.Makes w made s round' →
      c.question? decode round'.attempt round'.ending = some q := by
    intro round' hm'
    rw [hm.eq_roundOf] at hq
    rw [hm'.eq_roundOf]
    exact hq
  rw [questions_eq, rounds]
  rcases c.turn_cases w decode made s with ⟨error, span, hg, -⟩ |
    ⟨round', result, journal, hm', -, -, ht⟩ | ⟨round', delay, journal, hm', -, -, ht⟩
  · rcases (gate_refused_iff ..).mp hg with ⟨r, hr, -⟩ | ⟨-, ⟨d, hd, hle⟩, -⟩
    · simp [hm.cool] at hr
    · exact absurd hle ((Instant.not_le ..).mpr (hm.early d hd))
  · simp [ht, hsame _ hm']
  · simp [ht, hsame _ hm']

/-- The run asks the predicate nothing but the questions of its rounds. -/
theorem run_withPredicate (hw : ∀ a s, w.attempt (c.withPredicate p) a s = w.attempt c a s)
    (h : ∀ q ∈ c.questions w decode fuel made s, p q.1 q.2 = c.client.predicate q.1 q.2) :
    (c.withPredicate p).run w decode fuel made s = c.run w decode fuel made s := by
  induction fuel generalizing made s with
  | zero => rfl
  | succ fuel ih =>
    have hturn : (c.withPredicate p).turn w decode made s = c.turn w decode made s := by
      apply turn_withPredicate hw
      intro round hm q hq
      exact h q (hm.mem_questions hq)
    rw [run_succ, run_succ, hturn]
    rw [questions_eq, rounds] at h
    cases ht : c.turn w decode made s with
    | refused error s' => rfl
    | ended round result journal s' => rfl
    | again round journal s' =>
      simp only [ht] at h
      dsimp only
      rw [ih fun q hq => h q ?_]
      rw [questions_eq] at hq
      rw [List.filterMap_cons]
      split
      · exact hq
      · exact List.mem_cons_of_mem _ hq

end

/-! ## What a run ends with -/

section

variable {c : Call} {decode : Decoder α} {cooldown : Cooldown} {now : Instant} {made : Nat}
  {rounds : List Round}

theorem Concludes.mapError_conclude {result : Except CallError (Response α)}
    (h : c.Concludes decode cooldown now made rounds result) :
    result.mapError (·.conclude c.client.expectedStatuses) = result := by
  cases h with
  | failure rounds hw hr hv => simp [Except.mapError, CallError.conclude_conclude]
  | _ => rfl

theorem Concludes.exists_answer {failure : HttpFailure}
    (h : c.Concludes decode cooldown now made rounds (.error (.http failure))) :
    ∃ last answer record elapsed, rounds.getLast? = some last ∧
      last.ending = .answered answer record elapsed ∧
      failure = { c.failureOf last.attempt answer with
        concluded := true
        severity := c.client.expectedStatuses.severity answer.status true } := by
  generalize hresult : (Except.error (.http failure) : Except CallError (Response α)) = result at h
  cases h with
  | success rounds hw hr => simp at hresult
  | @failure rounds last error draw hw hr hv =>
    obtain ⟨f, rfl, hf⟩ := CallError.conclude_eq_http (Except.error.inj hresult).symm
    obtain ⟨answer, record, elapsed, hending, rfl⟩ := attemptResult_http hr
    exact ⟨last, answer, record, elapsed, by simp, hending, hf⟩
  | backoff rounds hw hc => simp at hresult
  | deadline rounds hw hc hd hle => simp at hresult

end

/-- The HTTP failure that a run ends with is concluded and the one of the last attempt in a log of
it, while the predicate is asked only about failures that are not. -/
theorem run_settles (w : World σ) (c : Call) (decode : Decoder α) (fuel : Nat) (s : σ) :
    c.run w.logged decode fuel 0 (s, []) =
      (c.run w decode fuel 0 s).map (fun (e, s') => (e, s', c.trials w decode fuel 0 s)) ∧
    (∀ e s', c.run w decode fuel 0 s = some (e, s') →
      e.result.mapError (·.conclude c.client.expectedStatuses) = e.result ∧
      ∀ failure, e.result = .error (.http failure) →
        failure.concluded = true ∧
        failure.severity =
          (if c.client.expectedStatuses.contains failure.status then .expected
            else if 500 ≤ failure.status.code ∧ failure.status.code ≤ 599 then .transient
            else .fatal) ∧
        ∃ last answer record elapsed,
          (c.trials w decode fuel 0 s).getLast? = some last ∧
          last.ending = .answered answer record elapsed ∧
          failure.status = answer.status ∧
          failure.attempts = last.attempt.number ∧
          failure.attempts = (c.trials w decode fuel 0 s).length ∧
          failure.body = Utf8.decodeLossy answer.body ∧
          failure.headers = answer.headers) ∧
    (∀ q ∈ c.questions w decode fuel 0 s, q.1.IsProvisional) ∧
    ∀ p, (∀ a s, w.attempt (c.withPredicate p) a s = w.attempt c a s) →
      (∀ q ∈ c.questions w decode fuel 0 s, p q.1 q.2 = c.client.predicate q.1 q.2) →
      (c.withPredicate p).run w decode fuel 0 s = c.run w decode fuel 0 s := by
  have hgoes := c.goes w decode fuel 0 s
  refine ⟨c.run_trials w decode fuel s, ?_, ?_, fun p hw h => run_withPredicate hw h⟩
  · intro e s' he
    have hends := hgoes.concludes he
    refine ⟨hends.mapError_conclude, ?_⟩
    intro failure hfailure
    have hattempts := hends.attempts_eq hgoes.numbers
    rw [hfailure] at hends
    obtain ⟨last, answer, record, elapsed, hlast, hending, rfl⟩ := hends.exists_answer
    simp only [CallEnd.attempts, hfailure, CallError.attempts?, Option.getD_some,
      Nat.zero_add] at hattempts
    refine ⟨rfl, ExpectedStatuses.severity_concluded .., last.toTrial, answer, record, elapsed, ?_,
      hending, rfl, rfl, ?_, rfl, rfl⟩
    · rw [trials, List.getLast?_map, hlast]
      rfl
    · rw [trials, List.length_map]
      exact hattempts
  · intro q hq
    obtain ⟨t, -, ht⟩ := List.mem_filterMap.mp hq
    exact provisional_of_question ht

theorem run_settles_of_unavailable :
    let w := Script.unavailable.world fun _ => .ofWindow .zero
    let c := Call.plain Settings.patient.plainClient
    ∃ e s' failure, c.run w Decoder.ignore 5 0 .origin = some (e, s') ∧
      e.result = .error (.http failure) ∧ failure.concluded = true ∧
      failure.severity = .transient ∧ failure.attempts = 4 ∧
      (c.questions w Decoder.ignore 5 0 .origin).length = 4 ∧
      ∀ q ∈ c.questions w Decoder.ignore 5 0 .origin, q.1.IsProvisional := by
  intro w c
  obtain ⟨-, hends, hasked, -⟩ := run_settles w c Decoder.ignore 5 .origin
  have hrun : ((c.run w Decoder.ignore 5 0 .origin).bind (·.1.error?)).bind
      (·.http?.map (·.status)) = some ⟨503, by decide, by decide⟩ := by decide
  obtain ⟨error, hrun, hhttp⟩ := Option.bind_eq_some_iff.mp hrun
  obtain ⟨⟨e, s'⟩, he, herror⟩ := Option.bind_eq_some_iff.mp hrun
  obtain ⟨failure, hfailure, hstatus⟩ := Option.map_eq_some_iff.mp hhttp
  have hresult : e.result = .error (.http failure) := by
    cases error <;> simp [CallError.http?] at hfailure
    unfold CallEnd.error? at herror
    cases hr : e.result <;> simp_all
  obtain ⟨-, hfailures⟩ := hends e s' he
  obtain ⟨hconcluded, hseverity, -, -, -, -, -, -, -, -, hattempts, -⟩ :=
    hfailures failure hresult
  refine ⟨e, s', failure, he, hresult, hconcluded, ?_, hattempts.trans (by decide), by decide,
    hasked⟩
  rw [hseverity, hstatus]
  decide

end Call

end ServiceCall
