import ServiceCall.Proofs.Call.Checks
import ServiceCall.Proofs.Call.Sequence
import ServiceCall.Proofs.Retry.Waits

/-!
# The retry budget

A schedule that limits the retries allows one attempt more than retries, and a request without
retries allows one attempt. A call whose attempts all fail in a way that may clear up, and that
nothing else stops, uses up its budget.
-/

namespace ServiceCall

variable {σ α : Type}

theorem RequestDraft.retryEnabled_of_build {draft : RequestDraft} {request : Request}
    (h : draft.build = .ok request) : request.retryEnabled = draft.retryEnabled := by
  rw [eq_described_of_build h]
  rfl

namespace Call

/-! ## At most the budget -/

/-- No attempt with a higher number is retried. -/
def RetriesUpTo (c : Call) (decode : Decoder α) (limit : Nat) : Prop :=
  ∀ round error delay, c.Retried decode round error delay → 0 < round.attempt.number →
    round.attempt.number ≤ limit

theorem retriesUpTo_of_limit {c : Call} {limit : Nat}
    (h : c.client.schedule.limit? = some limit) (decode : Decoder α) :
    c.RetriesUpTo decode limit := by
  intro round error delay hretried hpos
  obtain ⟨draw, hdelay⟩ := hretried.scheduled
  rw [← Schedule.delay?_isSome_iff h draw hpos, hdelay]
  rfl

theorem retriesUpTo_zero {c : Call} (h : c.request.retryEnabled = false) (decode : Decoder α) :
    c.RetriesUpTo decode 0 := by
  intro round error delay hretried
  have henabled := hretried.enabled
  rw [h] at henabled
  cases henabled

section

variable {w : World σ} {c : Call} {decode : Decoder α} {fuel made limit : Nat} {s : σ}
  {rounds : List Round} {end? : Option (CallEnd α × σ)}

theorem RetriesUpTo.made_lt (hl : c.RetriesUpTo decode limit) {round : Round} {delay : Duration}
    (hm : c.Makes w made s round) (hwait : round.wait? = some delay)
    (hr : (c.reaction w decode round.attempt s).1 = .again delay) : made < limit := by
  obtain ⟨error, hretried⟩ := retried_of_again hm hwait hr
  have hle := hl round error delay hretried (by rw [hm.number]; omega)
  rw [hm.number] at hle
  exact hle

/-- A run makes at most the attempts that its budget has left, and ends after them. -/
theorem Goes.within_budget (h : c.Goes w decode fuel made s rounds end?)
    (hl : c.RetriesUpTo decode limit) (hmade : made ≤ limit) :
    rounds.length ≤ limit + 1 - made ∧ (end? = none → fuel ≤ limit - made) := by
  induction h with
  | spent => simp
  | refused hg => simp
  | ended journal hm hwait hr =>
    refine ⟨?_, by simp⟩
    simp only [List.length_singleton]
    omega
  | again journal hm hwait hr hrest ih =>
    have hlt := hl.made_lt hm hwait hr
    obtain ⟨hlen, hfuel⟩ := ih hlt
    refine ⟨by simp only [List.length_cons]; omega, ?_⟩
    intro hnone
    have := hfuel (Option.map_eq_none_iff.mp hnone)
    omega

end

/-- A logged run with enough fuel for its budget ends, and its log holds at most so many
attempts. -/
theorem run_within_budget (w : World σ) {c : Call} {decode : Decoder α} {limit fuel : Nat}
    (hl : c.RetriesUpTo decode limit) (hfuel : limit < fuel) (s : σ) :
    ∃ e s' log, c.run w.logged decode fuel 0 (s, []) = some (e, s', log) ∧
      log.length ≤ limit + 1 := by
  obtain ⟨hlen, hnone⟩ := (c.goes w decode fuel 0 s).within_budget hl (Nat.zero_le _)
  rw [run_logged]
  cases hrun : c.run w decode fuel 0 s with
  | none =>
    have := hnone hrun
    omega
  | some out => exact ⟨out.1, out.2, _, rfl, by simpa using hlen⟩

/-! ## The whole budget -/

theorem attemptResult_of_retriable {c : Call} (decode : Decoder α) {a : Attempt}
    {ending : Ending} (h : c.Retriable a ending) :
    ∃ error, c.attemptResult decode a ending = .error error ∧ error.isRetryable = true := by
  cases hr : c.attemptResult decode a ending with
  | error error => exact ⟨error, rfl, (attemptResult_error hr).2.mpr h⟩
  | ok response =>
    -- Only an answer can be a success, and no 5xx is one unless the request decodes it.
    cases ending with
    | broken connecting cause record => cases hr
    | cutOff record => cases hr
    | answered answer record elapsed =>
      obtain ⟨hserver, hnot⟩ := h
      have hno : c.request.decodes answer.status = false := by
        simp only [Http.Status.isServerError, Bool.and_eq_true, decide_eq_true_eq] at hserver
        simp only [Request.decodes, Http.Status.isSuccess, List.contains_eq_mem, hnot,
          decide_false, Bool.or_false, Bool.and_eq_false_iff, decide_eq_false_iff_not]
        omega
      change c.client.outcome c.request decode a.number answer record = .ok response at hr
      unfold Client.outcome at hr
      split at hr
      · cases hr
      · rw [hno] at hr
        cases hr

/-- A call that nothing but its budget keeps from going on: there is no deadline, retries are
on, and what may be retried at all is retried. -/
structure Persists (c : Call) : Prop where
  endless : c.deadline? = none
  enabled : c.request.retryEnabled = true
  predicate : c.client.predicate = .retryable

/-- A world in which no cool-down is ever on and every attempt of the call fails in a way that
may clear up. -/
structure Fails (w : World σ) (c : Call) : Prop where
  cool : ∀ s, (w.cooldown s).remaining? (w.now s) = none
  retriable : ∀ a s, c.Retriable a (w.attempt c a s).1

theorem Persists.verdict {c : Call} (h : c.Persists) {limit number : Nat}
    (hl : c.client.schedule.limit? = some limit) (hn : 0 < number) {error : CallError}
    (he : error.isRetryable = true) (now : Instant) (draw : Schedule.Draw) :
    (∃ delay, c.verdict number error now draw = .retry delay) ↔ number ≤ limit := by
  rw [← Schedule.delay?_isSome_iff hl draw hn, Option.isSome_iff_exists]
  simp only [verdict_retry_iff, fits_iff, h.endless, h.enabled, h.predicate, he,
    RetryPredicate.retryable, reduceCtorEq, false_implies, implies_true, and_true, true_and]

section

variable {w : World σ} {c : Call} {decode : Decoder α} {fuel made limit : Nat} {s : σ}
  {rounds : List Round} {end? : Option (CallEnd α × σ)}

theorem Persists.not_refused (h : c.Persists) (hw : c.Fails w) {s : σ} {span : TraceId 64}
    {error : CallError} : c.gate (w.cooldown s) made (w.now s) span ≠ .refused error := by
  intro hg
  rcases (gate_refused_iff ..).mp hg with ⟨r, hr, -⟩ | ⟨-, ⟨d, hd, -⟩, -⟩
  · rw [hw.cool] at hr
    cases hr
  · rw [h.endless] at hd
    cases hd

/-- A run that fails for as long as it goes on makes all the attempts it has left. -/
theorem Goes.spends_budget (h : c.Goes w decode fuel made s rounds end?) (hc : c.Persists)
    (hw : c.Fails w) (hl : c.client.schedule.limit? = some limit) (hmade : made ≤ limit)
    (hfuel : limit < made + fuel) : rounds.length = limit + 1 - made := by
  induction h with
  | spent => omega
  | refused hg => exact absurd hg (hc.not_refused hw)
  | @ended _ made s round _ journal hm hwait hr =>
    rw [List.length_singleton]
    obtain ⟨error, herror, hretryable⟩ :=
      attemptResult_of_retriable decode (hm.ending ▸ hw.retriable round.attempt _)
    obtain ⟨draw, hreact⟩ := hm.reaction_eq decode
    have hstop : ¬ made + 1 ≤ limit := by
      rw [← hm.number, ← hc.verdict hl (by rw [hm.number]; omega) hretryable
        (w.now (c.reactionState w round.attempt s)) draw]
      rintro ⟨delay, hv⟩
      rw [hreact, (react_again_iff ..).mpr ⟨error, herror, hv⟩] at hr
      cases hr
    omega
  | again journal hm hwait hr hrest ih =>
    have hlt := (retriesUpTo_of_limit hl decode).made_lt hm hwait hr
    have := ih hlt (by omega)
    rw [List.length_cons]
    omega

theorem Concludes.of_fails {cooldown : Cooldown} {now : Instant}
    {result : Except CallError (Response α)}
    (h : c.Concludes decode cooldown now made rounds result) (hc : c.Persists)
    (hcool : cooldown.remaining? now = none)
    (hall : ∀ round ∈ rounds, c.Retriable round.attempt round.ending) :
    ∃ before last error, rounds = before ++ [last] ∧
      c.attemptResult decode last.attempt last.ending = .error error ∧
      result = .error (error.conclude c.client.expectedStatuses) := by
  cases h with
  | @success before last response hw hr =>
    obtain ⟨error, herror, -⟩ := attemptResult_of_retriable decode (hall last (by simp))
    rw [hr] at herror
    cases herror
  | @failure before last error draw hw hr hv => exact ⟨before, last, error, rfl, hr, rfl⟩
  | backoff _ hw hc' =>
    rw [hcool] at hc'
    cases hc'
  | deadline _ hw hc' hd hle =>
    rw [hc.endless] at hd
    cases hd

end

theorem run_spends_budget {w : World σ} {c : Call} (hc : c.Persists) (hw : c.Fails w)
    (decode : Decoder α) {limit fuel : Nat} (hl : c.client.schedule.limit? = some limit)
    (hfuel : limit < fuel) (s : σ) :
    ∃ e s' log, c.run w.logged decode fuel 0 (s, []) = some (e, s', log) ∧
      log.map (·.attempt.number) = List.range' 1 (limit + 1) ∧
      ∃ last error, log.getLast? = some last ∧
        c.attemptResult decode last.attempt last.ending = .error error ∧
        e.result = .error (error.conclude c.client.expectedStatuses) := by
  have hgoes := c.goes w decode fuel 0 s
  have hlen := hgoes.spends_budget hc hw hl (Nat.zero_le _) (by omega)
  have hnumbers := hgoes.numbers
  rw [hlen] at hnumbers
  have hall : ∀ round ∈ c.rounds w decode fuel 0 s, c.Retriable round.attempt round.ending := by
    intro round hround
    obtain ⟨made, s', hm, -⟩ := hgoes.exists_makes_of_mem hround
    rw [hm.ending]
    exact hw.retriable _ _
  rw [run_logged]
  cases hrun : c.run w decode fuel 0 s with
  | none =>
    have := (hgoes.within_budget (retriesUpTo_of_limit hl decode) (Nat.zero_le _)).2 hrun
    omega
  | some out =>
    obtain ⟨e, s'⟩ := out
    obtain ⟨before, last, error, heq, herror, hresult⟩ :=
      (hgoes.concludes hrun).of_fails hc (hw.cool s') hall
    refine ⟨e, s', _, rfl, ?_, last.toTrial, error, ?_, herror, hresult⟩
    · rw [List.nil_append, List.map_map]
      exact hnumbers
    · simp [heq]

/-- A logged run makes at most one attempt more than its schedule allows retries, and only one if
its request has no retries; a call that goes on failing makes all of them and ends with the
concluded error of the last one. -/
theorem run_budget (w : World σ) (c : Call) (decode : Decoder α) (s : σ) :
    (∀ limit, c.client.schedule.limit? = some limit → ∀ fuel, limit < fuel →
      ∃ e s' log, c.run w.logged decode fuel 0 (s, []) = some (e, s', log) ∧
        log.length ≤ limit + 1) ∧
      (∀ draft : RequestDraft, draft.retryEnabled = false → draft.build = .ok c.request →
        ∀ fuel, 0 < fuel →
          ∃ e s' log, c.run w.logged decode fuel 0 (s, []) = some (e, s', log) ∧
            log.length ≤ 1) ∧
      (c.Persists → c.Fails w → ∀ limit, c.client.schedule.limit? = some limit →
        ∀ fuel, limit < fuel →
          ∃ e s' log, c.run w.logged decode fuel 0 (s, []) = some (e, s', log) ∧
            log.map (·.attempt.number) = List.range' 1 (limit + 1) ∧
            ∃ last error, log.getLast? = some last ∧
              c.attemptResult decode last.attempt last.ending = .error error ∧
              e.result = .error (error.conclude c.client.expectedStatuses)) := by
  refine ⟨?_, ?_, ?_⟩
  · intro limit hl fuel hfuel
    exact run_within_budget w (retriesUpTo_of_limit hl decode) hfuel s
  · intro draft hdraft hbuild fuel hfuel
    have hoff : c.request.retryEnabled = false := by
      rw [RequestDraft.retryEnabled_of_build hbuild, hdraft]
    exact run_within_budget w (retriesUpTo_zero hoff decode) hfuel s
  · intro hc hw limit hl fuel hfuel
    exact run_spends_budget hc hw decode hl hfuel s

theorem fails_of_script {script : Script} {cooldown : Instant → Cooldown} {c : Call}
    (hcool : ∀ t, (cooldown t).remaining? t = none) (hd : c.deadline? = none)
    (h : ∀ a, c.Retriable a (script a.number).1) : c.Fails (script.world cooldown) where
  cool m := hcool m.now
  retriable a m := by
    rcases script.play_cases a m.now with ⟨-, hplay⟩ | ⟨t, record, -, hplay⟩
    · change c.Retriable a (script.play a m.now).1
      rw [hplay]
      exact h a
    · change c.Retriable a (script.play a m.now).1
      rw [hplay]
      intro t d ht hd'
      rw [hd] at hd'
      cases hd'

/-- A client without a limit of time, whose schedule allows three retries. -/
def unhurried : Client := { Settings.patient with timeout := .zero }.plainClient

/-- A request that allows one attempt. -/
def once : Request := { Request.plain with url := "/", propagate := true, retryEnabled := false }

theorem run_budget_of_failing :
    let w := Script.unavailable.world fun _ => .ofWindow .zero
    let c := Call.plain unhurried
    c.client.schedule.limit? = some 3 ∧
      (RequestDraft.new .get "/").withoutRetry.build = .ok once ∧ c.Persists ∧ c.Fails w ∧
      (∃ e s' log, Call.run w.logged { c with request := once } Decoder.ignore 1 0 (.origin, []) =
        some (e, s', log) ∧ log.length ≤ 1) ∧
      ∃ e s' log, c.run w.logged Decoder.ignore 4 0 (.origin, []) = some (e, s', log) ∧
        log.length ≤ 4 ∧ log.map (·.attempt.number) = [1, 2, 3, 4] ∧
        ∃ last error, log.getLast? = some last ∧
          c.attemptResult Decoder.ignore last.attempt last.ending = .error error ∧
          e.result = .error (error.conclude c.client.expectedStatuses) := by
  intro w c
  have hl : c.client.schedule.limit? = some 3 := rfl
  have hbuild : (RequestDraft.new .get "/").withoutRetry.build = .ok once := by rfl
  have hc : c.Persists := ⟨rfl, rfl, rfl⟩
  have hw : c.Fails w := fails_of_script (fun _ => rfl) rfl fun _ => ⟨rfl, List.not_mem_nil⟩
  obtain ⟨hlimit, -, hall⟩ := run_budget w c Decoder.ignore .origin
  obtain ⟨-, honce, -⟩ := run_budget w { c with request := once } Decoder.ignore .origin
  refine ⟨hl, hbuild, hc, hw, honce _ rfl hbuild 1 Nat.one_pos, ?_⟩
  obtain ⟨e, s', log, hrun, hnumbers, hlast⟩ := hall hc hw 3 hl 4 (by omega)
  obtain ⟨e', s'', log', hrun', hlen⟩ := hlimit 3 hl 4 (by omega)
  rw [hrun] at hrun'
  cases hrun'
  exact ⟨e, s', log, hrun, hlen, hnumbers, hlast⟩

end Call

end ServiceCall
