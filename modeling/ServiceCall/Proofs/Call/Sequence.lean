import ServiceCall.Proofs.Call.Rounds
import ServiceCall.Proofs.Call.Worlds
import Mathlib.Data.List.Chain

/-!
# The attempts of a run

The attempts of a run are numbered from 1, each one follows a failure that may be retried and the
wait after it, and what the run ends with is what its last attempt came to, or a refusal.
-/

namespace ServiceCall

variable {σ α : Type}

namespace Call

/-! ## What a run is made of -/

/-- An attempt that failed with this error, which is retried after this delay. -/
structure Retried (c : Call) (decode : Decoder α) (round : Round) (error : CallError)
    (delay : Duration) : Prop where
  failed : c.attemptResult decode round.attempt round.ending = .error error
  kind : (∃ connecting cause,
      error = .network c.request.site round.attempt.number connecting cause) ∨
    error = .timeout c.request.site round.attempt.number c.budget ∨
    ∃ failure, error = .http failure ∧ 500 ≤ failure.status.code ∧ failure.status.code ≤ 599
  /-- No answer that has a payload for the request, and no end of the whole call. -/
  retriable : c.Retriable round.attempt round.ending
  enabled : c.request.retryEnabled = true
  approved : c.client.predicate error round.attempt.number = true
  scheduled : ∃ draw, c.client.schedule.delay? draw round.attempt.number = some delay
  waits : round.wait? = some delay

/-- The second attempt is the retry of the first one, and begins once the wait after it is over. -/
def Leads (c : Call) (decode : Decoder α) (round next : Round) : Prop :=
  ∃ error delay, c.Retried decode round error delay ∧ round.begunAt ≤ round.endedAt ∧
    round.endedAt.after delay ≤ next.begunAt

/-- What a run returns that makes these rounds after `made` attempts and ends at `now`, with the
cool-down that the client has by then. -/
inductive Concludes (c : Call) (decode : Decoder α) (cooldown : Cooldown) (now : Instant)
    (made : Nat) : List Round → Except CallError (Response α) → Prop
  | success (rounds : List Round) {last response} (hw : last.wait? = none)
      (hr : c.attemptResult decode last.attempt last.ending = .ok response) :
      Concludes c decode cooldown now made (rounds ++ [last]) (.ok (response.endingAt c now))
  | failure (rounds : List Round) {last error draw} (hw : last.wait? = none)
      (hr : c.attemptResult decode last.attempt last.ending = .error error)
      (hv : ∀ delay, c.verdict last.attempt.number error now draw ≠ .retry delay) :
      Concludes c decode cooldown now made (rounds ++ [last])
        (.error (error.conclude c.client.expectedStatuses))
  | backoff (rounds : List Round) {remaining : Duration}
      (hw : ∀ round ∈ rounds, round.wait?.isSome = true)
      (hc : cooldown.remaining? now = some remaining) :
      Concludes c decode cooldown now made rounds
        (.error (.explicitBackoff c.request.site remaining (made + rounds.length)))
  | deadline (rounds : List Round) {d : Instant}
      (hw : ∀ round ∈ rounds, round.wait?.isSome = true)
      (hc : cooldown.remaining? now = none) (hd : c.deadline? = some d) (hle : d ≤ now) :
      Concludes c decode cooldown now made rounds
        (.error (.deadlineExceeded c.request.site (made + rounds.length)))

theorem Concludes.cons {c : Call} {decode : Decoder α} {cooldown : Cooldown} {now : Instant}
    {made : Nat} {rounds : List Round} {result : Except CallError (Response α)} {round : Round}
    (h : c.Concludes decode cooldown now (made + 1) rounds result)
    (hw : round.wait?.isSome = true) :
    c.Concludes decode cooldown now made (round :: rounds) result := by
  have hlen : made + 1 + rounds.length = made + (round :: rounds).length := by
    rw [List.length_cons]; omega
  have hall : (∀ r ∈ rounds, r.wait?.isSome = true) →
      ∀ r ∈ round :: rounds, r.wait?.isSome = true := by
    intro h r hr
    rcases List.mem_cons.mp hr with rfl | hr
    · exact hw
    · exact h r hr
  cases h with
  | success rounds hw' hr => exact .success (round :: rounds) hw' hr
  | failure rounds hw' hr hv => exact .failure (round :: rounds) hw' hr hv
  | backoff _ hw' hc => rw [hlen]; exact .backoff _ (hall hw') hc
  | deadline _ hw' hc hd hle => rw [hlen]; exact .deadline _ (hall hw') hc hd hle

/-! ## One round -/

theorem retried_of_again {w : World σ} {c : Call} {decode : Decoder α} {made : Nat} {s : σ}
    {round : Round} {delay : Duration} (hm : c.Makes w made s round)
    (hwait : round.wait? = some delay)
    (hr : (c.reaction w decode round.attempt s).1 = .again delay) :
    ∃ error, c.Retried decode round error delay := by
  obtain ⟨draw, hreact⟩ := hm.reaction_eq decode
  rw [hreact] at hr
  obtain ⟨error, herror, hv⟩ := (react_again_iff ..).mp hr
  obtain ⟨⟨henabled, hretryable, happroved⟩, hdelay, -⟩ := (verdict_retry_iff ..).mp hv
  refine ⟨error, herror, ?_, (attemptResult_error herror).2.mp hretryable, henabled, happroved,
    ⟨draw, hdelay⟩, hwait⟩
  rcases attemptResult_retryable herror hretryable with h | h | ⟨failure, he, -, -, hs⟩
  · exact Or.inl h
  · rw [hm.budget] at h; exact Or.inr (Or.inl h)
  · simp only [Http.Status.isServerError, Bool.and_eq_true, decide_eq_true_eq] at hs
    exact Or.inr (Or.inr ⟨failure, he, hs⟩)

theorem rest_le {w : World σ} (hw : w.Forward) {c : Call} {made : Nat} {s : σ} {round : Round}
    (delay : Duration) (hm : c.Makes w made s round) :
    round.endedAt.after delay ≤
      w.now (w.sleep delay (c.reactionState w round.attempt s)) := by
  have h1 := hw.random (c.attemptState w round.attempt s)
  have h2 := hw.sleep delay (c.reactionState w round.attempt s)
  rw [hm.endedAt]
  simp only [Instant.le_iff, Instant.nanos_after, reactionState] at *
  omega

theorem begunAt_le_endedAt {w : World σ} (hw : w.Forward) {c : Call} {made : Nat} {s : σ}
    {round : Round} (hm : c.Makes w made s round) : round.begunAt ≤ round.endedAt := by
  rw [hm.begunAt, hm.endedAt]
  exact hw.attempt ..

theorem concludes_of_refused {w : World σ} {c : Call} {decode : Decoder α} {made : Nat} {s : σ}
    {span : TraceId 64} {error : CallError}
    (hg : c.gate (w.cooldown s) made (w.now s) span = .refused error) :
    c.Concludes decode (w.cooldown s) (w.now s) made [] (.error error) := by
  rcases (gate_refused_iff ..).mp hg with ⟨r, hr, rfl⟩ | ⟨hc, ⟨d, hd, hle⟩, rfl⟩
  · exact .backoff [] (by simp) hr
  · exact .deadline [] (by simp) hc hd hle

theorem concludes_of_ended {w : World σ} {c : Call} {decode : Decoder α} {made : Nat} {s : σ}
    {round : Round} {result : Except CallError (Response α)} (cooldown : Cooldown)
    (hm : c.Makes w made s round) (hwait : round.wait? = none)
    (hr : (c.reaction w decode round.attempt s).1 = .ended result) :
    c.Concludes decode cooldown (w.now (c.reactionState w round.attempt s)) made [round]
      result := by
  obtain ⟨draw, hreact⟩ := hm.reaction_eq decode
  rw [hreact] at hr
  rcases react_ended hr with ⟨response, hok, rfl⟩ | ⟨error, herror, hv, rfl⟩
  · exact .success [] hwait hok
  · exact .failure [] hwait herror hv

/-! ## Whole runs -/

section

variable {w : World σ} {c : Call} {decode : Decoder α} {fuel made : Nat} {s : σ}
  {rounds : List Round} {end? : Option (CallEnd α × σ)}

theorem Goes.begunAt_of_head (h : c.Goes w decode fuel made s rounds end?) {round : Round}
    (hround : round ∈ rounds.head?) : round.begunAt = w.now (w.random s).2 := by
  cases h with
  | spent => cases hround
  | refused hg => cases hround
  | ended journal hm hwait hr => cases hround; exact hm.begunAt
  | again journal hm hwait hr hrest => cases hround; exact hm.begunAt

theorem Goes.numbers (h : c.Goes w decode fuel made s rounds end?) :
    rounds.map (·.attempt.number) = List.range' (made + 1) rounds.length := by
  induction h with
  | spent => rfl
  | refused hg => rfl
  | ended journal hm hwait hr => simp [hm.number]
  | again journal hm hwait hr hrest ih =>
    rw [List.map_cons, List.length_cons, List.range'_succ, ih, hm.number]

theorem Goes.chain (h : c.Goes w decode fuel made s rounds end?) (hw : w.Forward) :
    rounds.IsChain (c.Leads decode) := by
  induction h with
  | spent => exact .nil
  | refused hg => exact .nil
  | ended journal hm hwait hr => exact .singleton _
  | @again _ _ _ round delay _ _ journal hm hwait hr hrest ih =>
    refine List.isChain_cons.mpr ⟨?_, ih⟩
    intro follower hfollower
    obtain ⟨error, hretried⟩ := retried_of_again hm hwait hr
    refine ⟨error, delay, hretried, begunAt_le_endedAt hw hm, ?_⟩
    -- The follower begins with the check that comes after the wait.
    rw [hrest.begunAt_of_head hfollower]
    exact Int.le_trans (rest_le hw delay hm) (hw.random _)

theorem Goes.concludes (h : c.Goes w decode fuel made s rounds end?) {e : CallEnd α} {s' : σ}
    (he : end? = some (e, s')) :
    c.Concludes decode (w.cooldown s') (w.now s') made rounds e.result := by
  induction h generalizing e with
  | spent => cases he
  | refused hg => cases he; exact concludes_of_refused hg
  | ended journal hm hwait hr => cases he; exact concludes_of_ended _ hm hwait hr
  | again journal hm hwait hr hrest ih =>
    obtain ⟨⟨rest, t⟩, hend, heq⟩ := Option.map_eq_some_iff.mp he
    cases heq
    exact (ih hend).cons (by rw [hwait]; rfl)

theorem Goes.all_wait (h : c.Goes w decode fuel made s rounds end?) (he : end? = none) :
    rounds.length = fuel ∧ ∀ round ∈ rounds, round.wait?.isSome = true := by
  induction h with
  | spent => simp
  | refused hg => cases he
  | ended journal hm hwait hr => cases he
  | again journal hm hwait hr hrest ih =>
    obtain ⟨hlen, hall⟩ := ih (Option.map_eq_none_iff.mp he)
    refine ⟨by rw [List.length_cons, hlen], ?_⟩
    intro round hround
    rcases List.mem_cons.mp hround with rfl | hround
    · rw [hwait]; rfl
    · exact hall round hround

end

theorem Concludes.attempts_eq {c : Call} {decode : Decoder α} {cooldown : Cooldown}
    {now : Instant} {made : Nat} {rounds : List Round} {e : CallEnd α}
    (h : c.Concludes decode cooldown now made rounds e.result)
    (hn : rounds.map (·.attempt.number) = List.range' (made + 1) rounds.length) :
    e.attempts = made + rounds.length := by
  have hlast : ∀ (rounds : List Round) (last : Round),
      (rounds ++ [last]).map (·.attempt.number) =
        List.range' (made + 1) (rounds ++ [last]).length →
      last.attempt.number = made + (rounds ++ [last]).length := by
    intro rounds last hn
    have := congrArg List.getLast? hn
    simp [List.getLast?_range'] at this
    simp
    omega
  obtain ⟨result, journal⟩ := e
  cases h with
  | success rounds hw hr =>
    have hnumber := attemptResult_ok hr
    rw [← hlast _ _ hn]
    exact hnumber
  | failure rounds hw hr hv =>
    rw [← hlast _ _ hn]
    simp [CallEnd.attempts, (attemptResult_error hr).1]
  | backoff _ hw hc => rfl
  | deadline _ hw hc hd hle => rfl

/-- The shape of a whole run, whose rounds are what a log of it holds. -/
theorem run_shape {w : World σ} (hw : w.Forward) (c : Call) (decode : Decoder α) (fuel : Nat)
    (s : σ) :
    c.run w.logged decode fuel 0 (s, []) =
        (c.run w decode fuel 0 s).map (fun (e, s') =>
          (e, s', (c.rounds w decode fuel 0 s).map Round.toTrial)) ∧
      (c.rounds w decode fuel 0 s).map (·.attempt.number) =
        List.range' 1 (c.rounds w decode fuel 0 s).length ∧
      (c.rounds w decode fuel 0 s).IsChain (c.Leads decode) ∧
      (∀ e s', c.run w decode fuel 0 s = some (e, s') →
        c.Concludes decode (w.cooldown s') (w.now s') 0 (c.rounds w decode fuel 0 s) e.result ∧
          e.attempts = (c.rounds w decode fuel 0 s).length) ∧
      (c.run w decode fuel 0 s = none →
        (c.rounds w decode fuel 0 s).length = fuel ∧
          ∀ round ∈ c.rounds w decode fuel 0 s, round.wait?.isSome = true) := by
  have hgoes := c.goes w decode fuel 0 s
  refine ⟨c.run_logged w decode fuel 0 s [], hgoes.numbers, hgoes.chain hw, ?_, hgoes.all_wait⟩
  intro e s' he
  have h := hgoes.concludes he
  have ha := h.attempts_eq hgoes.numbers
  rw [Nat.zero_add] at ha
  exact ⟨h, ha⟩

theorem run_shape_of_recovering :
    let w := Script.recovering.world fun _ => .ofWindow .zero
    let c := Call.plain Settings.patient.plainClient
    let rounds := c.rounds w Decoder.ignore 3 0 .origin
    w.Forward ∧ rounds.map (·.attempt.number) = [1, 2] ∧
      rounds.IsChain (c.Leads Decoder.ignore) ∧
      ∃ e s', c.run w Decoder.ignore 3 0 .origin = some (e, s') ∧
        c.Concludes Decoder.ignore (w.cooldown s') (w.now s') 0 rounds e.result ∧
        e.attempts = 2 := by
  intro w c rounds
  have hw : w.Forward := (Script.ofStatuses_punctual _ _).forward
  obtain ⟨-, hnumbers, hchain, hends, -⟩ := run_shape hw c Decoder.ignore 3 .origin
  have hlen : rounds.length = 2 := by decide
  have hsome : (c.run w Decoder.ignore 3 0 .origin).isSome = true := by decide
  obtain ⟨⟨e, s'⟩, he⟩ := Option.isSome_iff_exists.mp hsome
  obtain ⟨hconcludes, hattempts⟩ := hends e s' he
  exact ⟨hw, hnumbers.trans (by rw [hlen]; rfl), hchain, e, s', he, hconcludes,
    hattempts.trans hlen⟩

end Call

end ServiceCall
