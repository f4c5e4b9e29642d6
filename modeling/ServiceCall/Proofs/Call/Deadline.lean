import ServiceCall.Proofs.Call.Sequence
import Mathlib.Order.Bounds.Defs

/-!
# The deadline of a call

The end of the client's timeout and the deadline of the request bound a whole call: the attempts,
the waits between them, and the moment at which it returns.
-/

namespace ServiceCall

variable {σ α : Type}

/-- A bound of the calls that start then. A timeout of zero is none, and neither is one that ends
after the last moment of the clock. -/
def Settings.Bounds (settings : Settings) (request : Request) (start t : Instant) : Prop :=
  settings.timeout.nanos ≠ 0 ∧ start.after? settings.timeout = some t ∨ request.deadline = some t

theorem Settings.timeout_of_build {settings : Settings} {client : Client}
    (h : settings.build = .ok client) :
    client.timeout = if settings.timeout.isZero then none else some settings.timeout := by
  unfold Settings.build at h
  simp only [bind, Except.bind, pure, Except.pure] at h
  split at h
  · cases h
  · split at h
    · cases h
    · split at h
      · cases h
      · split at h <;> cases h
        rfl

/-- Another attempt follows it without any time passing. -/
def Round.isInstant (round : Round) : Bool :=
  round.wait?.any fun delay => round.endedAt.after delay = round.begunAt

theorem Round.isInstant_iff (round : Round) :
    round.isInstant = true ↔
      ∃ delay, round.wait? = some delay ∧ round.endedAt.after delay = round.begunAt := by
  simp [isInstant, Option.any_eq_true]

namespace Call

/-! ## The bounds -/

theorem bounds_iff {settings : Settings} {c : Call} (hb : settings.build = .ok c.client)
    (t : Instant) :
    settings.Bounds c.request c.startedAt t ↔
      c.client.timeout.bind c.startedAt.after? = some t ∨ c.request.deadline = some t := by
  rw [Settings.Bounds, Settings.timeout_of_build hb]
  by_cases hz : settings.timeout.nanos = 0 <;> simp [Duration.isZero, hz]

theorem deadline_isLeast {settings : Settings} {c : Call} (hb : settings.build = .ok c.client)
    (d : Instant) :
    c.deadline? = some d ↔ IsLeast {t | settings.Bounds c.request c.startedAt t} d := by
  rw [deadline?, callDeadline, Instant.earliest_eq_some_iff, ← bounds_iff hb]
  simp only [← bounds_iff hb]
  rfl

theorem deadline_none_iff {settings : Settings} {c : Call} (hb : settings.build = .ok c.client) :
    c.deadline? = none ↔ ∀ t, ¬ settings.Bounds c.request c.startedAt t := by
  simp only [bounds_iff hb, not_or]
  rw [deadline?, callDeadline, Instant.earliest_eq_none_iff]
  constructor
  · rintro ⟨h1, h2⟩ t
    rw [h1, h2]
    simp
  · intro h
    exact ⟨Option.eq_none_iff_forall_not_mem.mpr fun t => (h t).1,
      Option.eq_none_iff_forall_not_mem.mpr fun t => (h t).2⟩

/-! ## One attempt -/

def DeadlineFirst (c : Call) (round : Round) : Prop :=
  ∃ d, c.deadline? = some d ∧ ∀ t, round.begunAt.after? c.budget = some t → d ≤ t

/-- The round keeps to the budget of its attempt and to the deadline of the call. -/
structure OnTime (c : Call) (decode : Decoder α) (round : Round) : Prop where
  begins : ∀ d, c.deadline? = some d → round.begunAt < d
  cutoff : ∀ t, round.attempt.cutoff = some t ↔
    IsLeast {u | round.begunAt.after? c.budget = some u ∨ c.deadline? = some u} t
  ends : ∀ t, round.attempt.cutoff = some t → round.endedAt ≤ t
  cutOff : ∀ record, round.ending = .cutOff record → round.attempt.cutoff = some round.endedAt
  exceeded : ∀ record, round.ending = .cutOff record →
    (c.attemptResult decode round.attempt round.ending =
      .error (.deadlineExceeded c.request.site round.attempt.number) ↔ c.DeadlineFirst round)
  timeout : ∀ record, round.ending = .cutOff record → ¬ c.DeadlineFirst round →
    c.attemptResult decode round.attempt round.ending =
      .error (.timeout c.request.site round.attempt.number c.budget)
  waits : ∀ d delay, c.deadline? = some d → round.wait? = some delay →
    round.endedAt.after delay < d

theorem begunAt_le_cutoff {w : World σ} {c : Call} {made : Nat} {s : σ} {round : Round}
    (hm : c.Makes w made s round) {t : Instant} (ht : round.attempt.cutoff = some t) :
    round.begunAt ≤ t := by
  rw [hm.cutoff, Instant.earliest_eq_some_iff] at ht
  rcases ht.1 with hbudget | hd
  · rw [Instant.eq_after_of_after? hbudget]
    exact Instant.le_after ..
  · have := hm.early t hd
    rw [hm.begunAt]
    simp only [Instant.lt_iff, Instant.le_iff] at *
    omega

theorem deadlineFirst_iff {w : World σ} {c : Call} {made : Nat} {s : σ} {round : Round}
    (hm : c.Makes w made s round) {t : Instant} (ht : round.attempt.cutoff = some t) :
    c.DeadlineFirst round ↔ ∃ d, c.deadline? = some d ∧ d ≤ t := by
  rw [hm.cutoff, Instant.earliest_eq_some_iff] at ht
  obtain ⟨hmem, hleast⟩ := ht
  constructor
  · rintro ⟨d, hd, hall⟩
    refine ⟨d, hd, ?_⟩
    rcases hmem with hbudget | hd'
    · exact hall t hbudget
    · rw [hd] at hd'
      cases hd'
      exact Int.le_refl _
  · rintro ⟨d, hd, hle⟩
    refine ⟨d, hd, ?_⟩
    intro u hu
    exact Int.le_trans hle (hleast u (Or.inl hu))

theorem cutoffError_of_deadlineFirst {w : World σ} {c : Call} {made : Nat} {s : σ} {round : Round}
    (hm : c.Makes w made s round) {t : Instant} (ht : round.attempt.cutoff = some t) :
    (c.DeadlineFirst round ∧
        c.cutoffError round.attempt = .deadlineExceeded c.request.site round.attempt.number) ∨
      ¬ c.DeadlineFirst round ∧
        c.cutoffError round.attempt = .timeout c.request.site round.attempt.number c.budget := by
  rw [deadlineFirst_iff hm ht]
  rcases c.cutoffError_cases round.attempt with ⟨u, d, hu, hd, hle, he⟩ | ⟨hlt, he⟩
  · rw [ht] at hu
    cases hu
    exact Or.inl ⟨⟨d, hd, hle⟩, he⟩
  · rw [hm.budget] at he
    refine Or.inr ⟨?_, he⟩
    rintro ⟨d, hd, hle⟩
    exact (Instant.not_le d t).mpr (hlt t d ht hd) hle

theorem Makes.reactionState_now {w : World σ} (hw : w.Punctual) {c : Call} {made : Nat} {s : σ}
    {round : Round} (hm : c.Makes w made s round) :
    w.now (c.reactionState w round.attempt s) = round.endedAt := by
  rw [hm.endedAt, reactionState, hw.random]

theorem wait_lt_deadline {w : World σ} (hw : w.Punctual) {c : Call} {decode : Decoder α}
    {made : Nat} {s : σ} {round : Round} {delay : Duration} {d : Instant}
    (hm : c.Makes w made s round)
    (hr : (c.reaction w decode round.attempt s).1 = .again delay) (hd : c.deadline? = some d) :
    round.endedAt.after delay < d := by
  obtain ⟨draw, hreact⟩ := hm.reaction_eq decode
  rw [hreact, hm.reactionState_now hw] at hr
  obtain ⟨error, -, hv⟩ := (react_again_iff ..).mp hr
  obtain ⟨-, -, hfits⟩ := (verdict_retry_iff ..).mp hv
  obtain ⟨t, ht, hlt⟩ := (fits_iff ..).mp hfits d hd
  rw [← Instant.eq_after_of_after? ht]
  exact hlt

theorem onTime_of_makes {w : World σ} (hw : w.Punctual) {c : Call} {decode : Decoder α}
    {made : Nat} {s : σ} {round : Round} (hm : c.Makes w made s round)
    (hr : ∀ delay, round.wait? = some delay →
      (c.reaction w decode round.attempt s).1 = .again delay) :
    c.OnTime decode round := by
  have hcut : ∀ record, round.ending = .cutOff record →
      round.attempt.cutoff = some round.endedAt := by
    intro record he
    rw [hm.ending] at he
    obtain ⟨t, ht, hat⟩ := hw.cutOff c round.attempt (w.random s).2 record he
    have hle := begunAt_le_cutoff hm ht
    rw [hm.begunAt] at hle
    rw [ht, hm.endedAt, attemptState, hat hle]
  refine ⟨?_, ?_, ?_, hcut, ?_, ?_, ?_⟩
  · intro d hd
    rw [hm.begunAt]
    exact hm.early d hd
  · intro t
    rw [hm.cutoff, Instant.earliest_eq_some_iff]
    rfl
  · intro t ht
    have hle := begunAt_le_cutoff hm ht
    rw [hm.begunAt] at hle
    rw [hm.endedAt]
    exact hw.inTime c round.attempt (w.random s).2 t ht hle
  · intro record he
    rw [he, attemptResult]
    rcases cutoffError_of_deadlineFirst hm (hcut record he) with ⟨hfirst, herror⟩ | ⟨hfirst, herror⟩
    · simp [herror, hfirst]
    · simp [herror, hfirst]
  · intro record he hfirst
    rw [he, attemptResult]
    rcases cutoffError_of_deadlineFirst hm (hcut record he) with ⟨hfirst', -⟩ | ⟨-, herror⟩
    · exact absurd hfirst' hfirst
    · rw [herror]
  · intro d delay hd hwait
    exact wait_lt_deadline hw hm (hr delay hwait) hd

/-! ## Whole runs -/

theorem OnTime.ended_le {w : World σ} {c : Call} {decode : Decoder α} {made : Nat} {s : σ}
    {round : Round} {d : Instant} (h : c.OnTime decode round) (hd : c.deadline? = some d)
    (hm : c.Makes w made s round) : round.endedAt ≤ d := by
  cases hc : round.attempt.cutoff with
  | none =>
    rw [hm.cutoff, Instant.earliest_eq_none_iff] at hc
    rw [hc.2] at hd
    cases hd
  | some t => exact Int.le_trans (h.ends t hc) (((h.cutoff t).mp hc).2 (Or.inr hd))

theorem Goes.end_le {w : World σ} (hw : w.Punctual) {c : Call} {decode : Decoder α}
    {fuel made : Nat} {s s' : σ} {rounds : List Round} {end? : Option (CallEnd α × σ)}
    (h : c.Goes w decode fuel made s rounds end?) {d : Instant} (hd : c.deadline? = some d)
    {e : CallEnd α} (he : end? = some (e, s')) : w.now s' ≤ w.now s ∨ w.now s' ≤ d := by
  induction h generalizing e with
  | spent => cases he
  | refused hg =>
    cases he
    exact Or.inl (by rw [hw.random]; exact Int.le_refl _)
  | ended journal hm hwait hr =>
    cases he
    have hon : c.OnTime decode _ := onTime_of_makes hw hm (by simp [hwait])
    rw [hm.reactionState_now hw]
    exact Or.inr (hon.ended_le hd hm)
  | again journal hm hwait hr hrest ih =>
    obtain ⟨⟨rest, t⟩, hend, heq⟩ := Option.map_eq_some_iff.mp he
    cases heq
    -- The wait is over before the deadline, so the rest of the run begins before it.
    have hlt := wait_lt_deadline hw hm hr hd
    rcases ih hend with hle | hle
    · rw [hw.sleep, hm.reactionState_now hw] at hle
      right
      simp only [Instant.le_iff, Instant.lt_iff] at *
      omega
    · exact Or.inr hle

/-- A run that goes on has spent all its fuel on rounds of which, but for those that take no
time, each one takes some of the time up to the deadline. -/
theorem Goes.fuel_le {w : World σ} (hw : w.Punctual) {c : Call} {decode : Decoder α}
    {fuel made : Nat} {s : σ} {rounds : List Round} {end? : Option (CallEnd α × σ)}
    (h : c.Goes w decode fuel made s rounds end?) {d : Instant} (hd : c.deadline? = some d)
    (he : end? = none) :
    fuel ≤ rounds.countP Round.isInstant + (d.nanos - (w.now s).nanos).toNat := by
  induction h with
  | spent => exact Nat.zero_le _
  | refused hg => cases he
  | ended journal hm hwait hr => cases he
  | @again _ _ s round delay _ _ journal hm hwait hr hrest ih =>
    have hfuel := ih (Option.map_eq_none_iff.mp he)
    have hlt := wait_lt_deadline hw hm hr hd
    have hle := begunAt_le_endedAt hw.forward hm
    have hbegun : round.begunAt = w.now s := by rw [hm.begunAt, hw.random]
    rw [hbegun] at hle
    rw [hw.sleep, hm.reactionState_now hw] at hfuel
    rw [List.countP_cons]
    simp only [Instant.lt_iff, Instant.le_iff, Instant.nanos_after] at *
    split
    · omega
    · rename_i hinstant
      rw [Round.isInstant_iff] at hinstant
      have hne : round.endedAt.nanos + delay.nanos ≠ (w.now s).nanos := by
        intro heq
        refine hinstant ⟨delay, hwait, Instant.ext ?_⟩
        rw [Instant.nanos_after, heq, hbegun]
      omega

theorem refused_deadline_iff {w : World σ} (hw : w.Punctual) {c : Call} {s : σ}
    {span : TraceId 64} {error : CallError}
    (hg : c.gate (w.cooldown (w.random s).2) 0 (w.now (w.random s).2) span = .refused error) :
    error = .deadlineExceeded c.request.site 0 ↔
      (w.cooldown s).remaining? (w.now s) = none ∧ ∃ d, c.deadline? = some d ∧ d ≤ w.now s := by
  rw [hw.random, hw.cooldown] at hg
  rcases (gate_refused_iff ..).mp hg with ⟨r, hr, rfl⟩ | ⟨hr, hd, rfl⟩
  · simp [hr]
  · simp [hr, hd]

/-- A call ends without any attempt because of its deadline exactly if the deadline is not ahead
when the call starts, and no cool-down is on. -/
theorem exceeded_at_once_iff {w : World σ} (hw : w.Punctual) (c : Call) (decode : Decoder α)
    (fuel : Nat) (s : σ) :
    (∃ e s', c.run w decode (fuel + 1) 0 s = some (e, s') ∧
        e.result = .error (.deadlineExceeded c.request.site 0)) ↔
      (w.cooldown s).remaining? (w.now s) = none ∧ ∃ d, c.deadline? = some d ∧ d ≤ w.now s := by
  have hearly : ∀ round, c.Makes w 0 s round → ∀ d, c.deadline? = some d → ¬ d ≤ w.now s := by
    intro round hm d hd
    have hlt := hm.early d hd
    rw [hw.random] at hlt
    exact (Instant.not_le d (w.now s)).mpr hlt
  have hgoes := c.goes w decode (fuel + 1) 0 s
  generalize c.rounds w decode (fuel + 1) 0 s = rounds,
    c.run w decode (fuel + 1) 0 s = end? at hgoes ⊢
  have hmade : 0 < rounds.length → ¬ ∃ e s', end? = some (e, s') ∧
      e.result = .error (.deadlineExceeded c.request.site 0) := by
    rintro hlen ⟨e, s', h, he⟩
    have hzero := (hgoes.concludes h).attempts_eq hgoes.numbers
    simp only [CallEnd.attempts, he, CallError.attempts?, Option.getD_some] at hzero
    omega
  cases hgoes with
  | refused hg =>
    rw [← refused_deadline_iff hw hg]
    constructor
    · rintro ⟨e, s', h, he⟩
      cases h
      cases he
      rfl
    · rintro rfl
      exact ⟨_, _, rfl, rfl⟩
  | ended journal hm hwait hr =>
    refine iff_of_false (hmade Nat.one_pos) ?_
    rintro ⟨-, d, hd, hle⟩
    exact hearly _ hm d hd hle
  | again journal hm hwait hr hrest =>
    refine iff_of_false (hmade (Nat.succ_pos _)) ?_
    rintro ⟨-, d, hd, hle⟩
    exact hearly _ hm d hd hle

/-- The deadline of a call is its earliest bound; all attempts and waits keep to it, and the call
returns by then, or at once, unless it goes through ever more rounds that take no time. -/
theorem run_keeps_deadline {w : World σ} (hw : w.Punctual) {settings : Settings} {c : Call}
    (hb : settings.build = .ok c.client) (decode : Decoder α) {s : σ}
    (hs : w.now s = c.startedAt) (fuel : Nat) :
    (∀ d, c.deadline? = some d ↔ IsLeast {t | settings.Bounds c.request c.startedAt t} d) ∧
      (c.deadline? = none ↔ ∀ t, ¬ settings.Bounds c.request c.startedAt t) ∧
      (∀ round ∈ c.rounds w decode fuel 0 s, c.OnTime decode round) ∧
      (∀ d, c.deadline? = some d →
        (∀ e s', c.run w decode fuel 0 s = some (e, s') →
          w.now s' ≤ c.startedAt ∨ w.now s' ≤ d) ∧
        ((c.rounds w decode fuel 0 s).countP Round.isInstant +
            (d.nanos - c.startedAt.nanos).toNat < fuel →
          (c.run w decode fuel 0 s).isSome = true)) ∧
      (0 < fuel →
        ((∃ e s', c.run w decode fuel 0 s = some (e, s') ∧
            e.result = .error (.deadlineExceeded c.request.site 0)) ↔
          (w.cooldown s).remaining? c.startedAt = none ∧
            ∃ d, c.deadline? = some d ∧ d ≤ c.startedAt)) := by
  have hgoes := c.goes w decode fuel 0 s
  refine ⟨deadline_isLeast hb, deadline_none_iff hb, ?_, ?_, ?_⟩
  · intro round hround
    obtain ⟨made, s', hm, hr⟩ := hgoes.exists_makes_of_mem hround
    exact onTime_of_makes hw hm hr
  · intro d hd
    refine ⟨?_, ?_⟩
    · intro e s' h
      rw [← hs]
      exact hgoes.end_le hw hd h
    · intro hfuel
      by_contra hnot
      rw [Option.not_isSome_iff_eq_none] at hnot
      have hle := hgoes.fuel_le hw hd hnot
      rw [hs] at hle
      omega
  · intro hfuel
    obtain ⟨fuel, rfl⟩ : ∃ n, fuel = n + 1 := ⟨fuel - 1, by omega⟩
    rw [← hs]
    exact exceeded_at_once_iff hw c decode fuel s

/-- The second attempt begins 1.1 s after the start, and the deadline cuts it off. -/
theorem run_keeps_deadline_of_recovering :
    let settings := { Settings.patient with timeout := .ofMillis 1150 }
    let w := Script.recovering.world fun _ => .ofWindow .zero
    let c := Call.plain settings.plainClient
    w.Punctual ∧ settings.build = .ok c.client ∧ w.now .origin = c.startedAt ∧
      c.deadline? = some ⟨1150000000⟩ ∧
      (∀ round ∈ c.rounds w Decoder.ignore 3 0 .origin, c.OnTime Decoder.ignore round) ∧
      ∃ e s', c.run w Decoder.ignore 3 0 .origin = some (e, s') ∧
        e.result = .error (.deadlineExceeded c.request.site 2) ∧
        (w.now s' ≤ c.startedAt ∨ w.now s' ≤ ⟨1150000000⟩) := by
  intro settings w c
  have hw : w.Punctual := Script.ofStatuses_punctual _ _
  have hb : settings.build = .ok c.client := rfl
  have hs : w.now .origin = c.startedAt := rfl
  obtain ⟨-, -, hrounds, hreturn, -⟩ := run_keeps_deadline hw hb Decoder.ignore hs 3
  have hd : c.deadline? = some ⟨1150000000⟩ := by decide
  have hresult : (c.run w Decoder.ignore 3 0 .origin).map (·.1.error?) =
      some (some (.deadlineExceeded c.request.site 2)) := by decide
  obtain ⟨⟨e, s'⟩, he, herror⟩ := Option.map_eq_some_iff.mp hresult
  refine ⟨hw, hb, hs, hd, hrounds, e, s', he, ?_, (hreturn _ hd).1 e s' he⟩
  obtain ⟨result, journal⟩ := e
  cases result with
  | ok response => cases herror
  | error error => exact congrArg Except.error (Option.some.inj herror)

end Call

end ServiceCall
