import ServiceCall.Proofs.Call.Rounds
import ServiceCall.Proofs.Call.Worlds
import ServiceCall.Proofs.Retry.Waits

/-!
# Tighter policies

A call that retries less often, has an earlier deadline or a schedule with a lower limit does what
the other call does, up to a point at which it stops: it makes no attempt that the other one does
not make, and none at another time.
-/

namespace ServiceCall

variable {α : Type}

/-! ## Schedules -/

namespace Schedule

/-- The first schedule is the second one, perhaps with a lower limit. -/
inductive Shortens : Schedule → Schedule → Prop
  | refl (schedule) : Shortens schedule schedule
  | exponential {first cap limit limit' jitter}
      (h : ∀ m, limit = some m → ∃ m', limit' = some m' ∧ m' ≤ m) :
      Shortens (.exponential first cap limit' jitter) (.exponential first cap limit jitter)
  | steady {wait limit limit'} (h : limit' ≤ limit) :
      Shortens (.steady wait limit') (.steady wait limit)

theorem Shortens.hasJitter {short long : Schedule} (h : short.Shortens long) :
    short.hasJitter = long.hasJitter := by
  cases h <;> rfl

theorem Shortens.fullDelay? {short long : Schedule} (h : short.Shortens long) {number : Nat}
    {delay : Duration} (hd : short.fullDelay? number = some delay) :
    long.fullDelay? number = some delay := by
  cases h with
  | refl => exact hd
  | @exponential first cap limit limit' jitter h =>
    simp only [Schedule.fullDelay?] at hd ⊢
    cases limit with
    | none =>
      split at hd
      · cases hd
      · simpa using hd
    | some m =>
      obtain ⟨m', rfl, hle⟩ := h m rfl
      split at hd
      · cases hd
      · rename_i hgt
        simp only [Option.any_some, gt_iff_lt, decide_eq_true_eq] at hgt ⊢
        rw [if_neg (by omega)]
        exact hd
  | @steady wait limit limit' h =>
    simp only [Schedule.fullDelay?] at hd ⊢
    split at hd
    · rw [if_pos (by omega)]
      exact hd
    · cases hd

end Schedule

/-! ## Scripted attempts -/

theorem Script.play_congr (script : Script) {a b : Attempt} (hn : a.number = b.number)
    (hc : a.cutoff = b.cutoff) (now : Instant) : script.play a now = script.play b now := by
  simp only [play, hn, hc]

/-- How an attempt begins: its number, and when. -/
def Trial.opening (t : Trial) : Nat × Instant := (t.attempt.number, t.begunAt)

namespace Call

/-- How an attempt ends: by what, when, and with which result. -/
def closing (c : Call) (decode : Decoder α) (t : Trial) :
    Ending × Instant × Except CallError (Response α) :=
  (t.ending, t.endedAt, c.attemptResult decode t.attempt t.ending)

/-! ## Two calls -/

/-- The first call is the second one, perhaps with an earlier deadline, a lower limit of retries,
or a predicate in place of the one that approves of all retries. -/
structure Tightens (tight c : Call) : Prop where
  startedAt : tight.startedAt = c.startedAt
  target : tight.target = c.target
  parent : tight.parent = c.parent
  request : tight.request = { c.request with deadline := tight.request.deadline }
  client : tight.client = { c.client with
    timeout := tight.client.timeout
    schedule := tight.client.schedule
    predicate := tight.client.predicate }
  deadline : ∀ d, c.deadline? = some d → ∃ d', tight.deadline? = some d' ∧ d' ≤ d
  schedule : tight.client.schedule.Shortens c.client.schedule
  predicate : tight.client.predicate = c.client.predicate ∨ c.client.predicate = .retryable

section

variable {tight c : Call} {a b : Attempt} {now : Instant}

theorem Tightens.budget (h : tight.Tightens c) : tight.budget = c.budget := by
  rw [Call.budget, Call.budget, h.request]

theorem Tightens.site (h : tight.Tightens c) : tight.request.site = c.request.site := by
  rw [h.request]

theorem Tightens.deadline_none (h : tight.Tightens c) (hd : tight.deadline? = none) :
    c.deadline? = none := by
  cases hc : c.deadline? with
  | none => rfl
  | some d =>
    obtain ⟨d', hd', -⟩ := h.deadline d hc
    rw [hd] at hd'
    cases hd'

/-- What is worth a retry has not been cut off by the deadline, so a later deadline cuts it off
at the same moment. -/
theorem Tightens.cutoff_eq (h : tight.Tightens c) {bound : Option Instant}
    (ha : a.cutoff = Instant.earliest bound tight.deadline?)
    (hb : b.cutoff = Instant.earliest bound c.deadline?)
    (hlt : ∀ t d, a.cutoff = some t → tight.deadline? = some d → t < d) : a.cutoff = b.cutoff := by
  cases hd : tight.deadline? with
  | none => rw [ha, hb, hd, h.deadline_none hd]
  | some d =>
    cases hcut : a.cutoff with
    | none =>
      rw [hcut, eq_comm, Instant.earliest_eq_none_iff, hd] at ha
      cases ha.2
    | some t =>
      have hltd := hlt t d hcut hd
      rw [hcut, eq_comm, Instant.earliest_eq_some_iff] at ha
      obtain ⟨hmem, hleast⟩ := ha
      rw [hb, eq_comm, Instant.earliest_eq_some_iff]
      have hbound : bound = some t := by
        rcases hmem with hbound | hdeadline
        · exact hbound
        · rw [hd] at hdeadline
          cases hdeadline
          exact absurd hltd (Int.lt_irrefl _)
      refine ⟨Or.inl hbound, ?_⟩
      rintro u (hu | hu)
      · exact hleast u (Or.inl hu)
      · obtain ⟨d', hd', hle⟩ := h.deadline u hu
        rw [hd] at hd'
        cases hd'
        simp only [Instant.le_iff, Instant.lt_iff] at *
        omega

theorem Tightens.cutoff_le (h : tight.Tightens c) {bound : Option Instant}
    (ha : a.cutoff = Instant.earliest bound tight.deadline?)
    (hb : b.cutoff = Instant.earliest bound c.deadline?) {t : Instant} (ht : b.cutoff = some t) :
    ∃ t', a.cutoff = some t' ∧ t' ≤ t := by
  rw [hb, Instant.earliest_eq_some_iff] at ht
  cases hcut : a.cutoff with
  | none =>
    rw [ha, Instant.earliest_eq_none_iff] at hcut
    obtain ⟨hbound, hd⟩ := hcut
    rw [hbound, h.deadline_none hd] at ht
    simp at ht
  | some t' =>
    refine ⟨t', rfl, ?_⟩
    rw [ha, Instant.earliest_eq_some_iff] at hcut
    rcases ht.1 with hbound | hd
    · exact hcut.2 t (Or.inl hbound)
    · obtain ⟨d', hd', hle⟩ := h.deadline t hd
      exact Int.le_trans (hcut.2 d' (Or.inr hd')) hle

theorem Tightens.play_eq (h : tight.Tightens c) {script : Script} {bound : Option Instant}
    (hn : a.number = b.number) (ha : a.cutoff = Instant.earliest bound tight.deadline?)
    (hb : b.cutoff = Instant.earliest bound c.deadline?)
    (hr : tight.Retriable a (script.play a now).1) : script.play a now = script.play b now := by
  rcases script.play_cases a now with ⟨hnatural, hplay⟩ | ⟨t, record, -, hplay⟩
  · -- It ends by itself before the earlier cut-off, so also before the later one.
    rw [hplay, hn]
    cases hcut : b.cutoff with
    | none => rw [Script.play_of_no_cutoff hcut]
    | some t =>
      obtain ⟨t', ht', hle⟩ := h.cutoff_le ha hb hcut
      have hearly := Int.le_trans (hnatural t' ht') hle
      rw [hn] at hearly
      rw [Script.play_in_time hcut hearly]
  · rw [hplay] at hr
    exact script.play_congr hn (h.cutoff_eq ha hb hr) now

theorem Tightens.cutoffError_eq (h : tight.Tightens c) {bound : Option Instant}
    (hn : a.number = b.number) (hbudget : a.budget = b.budget)
    (ha : a.cutoff = Instant.earliest bound tight.deadline?)
    (hb : b.cutoff = Instant.earliest bound c.deadline?)
    (hlt : ∀ t d, a.cutoff = some t → tight.deadline? = some d → t < d) :
    tight.cutoffError a = c.cutoffError b := by
  have hcut := h.cutoff_eq ha hb hlt
  rcases tight.cutoffError_cases a with ⟨t, d, ht, hd, hle, -⟩ | ⟨-, htight⟩
  · exact absurd hle ((Instant.not_le d t).mpr (hlt t d ht hd))
  · rcases c.cutoffError_cases b with ⟨t, d, ht, hd, hle, -⟩ | ⟨-, hc⟩
    · obtain ⟨d', hd', hle'⟩ := h.deadline d hd
      have := hlt t d' (hcut.trans ht) hd'
      simp only [Instant.le_iff, Instant.lt_iff] at *
      omega
    · rw [htight, hc, hn, hbudget, h.site]

theorem Tightens.attemptResult_eq (h : tight.Tightens c) (decode : Decoder α)
    {bound : Option Instant} {ending : Ending} (hn : a.number = b.number)
    (hbudget : a.budget = b.budget) (ha : a.cutoff = Instant.earliest bound tight.deadline?)
    (hb : b.cutoff = Instant.earliest bound c.deadline?) (hr : tight.Retriable a ending) :
    tight.attemptResult decode a ending = c.attemptResult decode b ending := by
  cases ending with
  | answered answer record elapsed =>
    simp only [attemptResult]
    rw [h.client, h.request, hn]
    rfl
  | broken connecting cause record =>
    simp only [attemptResult]
    rw [h.site, hn]
  | cutOff record =>
    simp only [attemptResult]
    rw [h.cutoffError_eq hn hbudget ha hb hr]

theorem Tightens.verdict (h : tight.Tightens c) (hj : c.client.schedule.hasJitter = false)
    {number : Nat} {error : CallError} {draw draw' : Schedule.Draw} {delay : Duration}
    (hv : tight.verdict number error now draw = .retry delay) :
    c.verdict number error now draw' = .retry delay := by
  obtain ⟨⟨henabled, hretryable, happroved⟩, hdelay, hfits⟩ := (verdict_retry_iff ..).mp hv
  refine (verdict_retry_iff ..).mpr ⟨⟨?_, hretryable, ?_⟩, ?_, ?_⟩
  · rw [h.request] at henabled
    exact henabled
  · rcases h.predicate with hsame | hall
    · rw [← hsame]
      exact happroved
    · rw [hall]
      exact hretryable
  · rw [Schedule.delay?_of_no_jitter (by rw [h.schedule.hasJitter, hj])] at hdelay
    rw [Schedule.delay?_of_no_jitter hj]
    exact h.schedule.fullDelay? hdelay
  · rw [fits_iff] at *
    intro d hd
    obtain ⟨d', hd', hle⟩ := h.deadline d hd
    obtain ⟨t, ht, hlt⟩ := hfits d' hd'
    refine ⟨t, ht, ?_⟩
    simp only [Instant.le_iff, Instant.lt_iff] at *
    omega

end

/-! ## Two runs -/

section

variable {script : Script} {cooldown : Instant → Cooldown} {tight c : Call} {decode : Decoder α}
  {fuel made : Nat} {m m' : Script.Moment} {round round' : Round}

theorem Makes.opening_eq (hm' : tight.Makes (script.world cooldown) made m' round')
    (hm : c.Makes (script.world cooldown) made m round) (hnow : m.now = m'.now) :
    round'.opening = round.opening := by
  rw [Trial.opening, Trial.opening, hm'.number, hm.number, hm'.begunAt, hm.begunAt]
  exact congrArg _ hnow.symm

theorem Makes.now_sleep (hm : c.Makes (script.world cooldown) made m round) (delay : Duration) :
    ((script.world cooldown).sleep delay
      (c.reactionState (script.world cooldown) round.attempt m)).now =
        round.endedAt.after delay := by
  rw [hm.endedAt]
  rfl

/-- Where the tighter call makes an attempt, the other one is not refused. -/
theorem Tightens.not_refused (h : tight.Tightens c)
    (hm' : tight.Makes (script.world cooldown) made m' round') (hnow : m.now = m'.now)
    {span : TraceId 64} {error : CallError} :
    c.gate (cooldown m.now) made m.now span ≠ .refused error := by
  intro hg
  rcases (gate_refused_iff ..).mp hg with ⟨r, hr, -⟩ | ⟨-, ⟨d, hd, hle⟩, -⟩
  · have hcool : (cooldown m'.now).remaining? m'.now = none := hm'.cool
    rw [hnow, hcool] at hr
    cases hr
  · obtain ⟨d', hd', hle'⟩ := h.deadline d hd
    have hearly : m'.now < d' := hm'.early d' hd'
    rw [← hnow] at hearly
    simp only [Instant.le_iff, Instant.lt_iff] at *
    omega

/-- If the tighter call goes on after an attempt, so does the other one after the same wait, and
the attempt has ended alike for both. -/
theorem Tightens.again (h : tight.Tightens c) (hj : c.client.schedule.hasJitter = false)
    (hm' : tight.Makes (script.world cooldown) made m' round')
    (hm : c.Makes (script.world cooldown) made m round) (hnow : m.now = m'.now)
    {delay : Duration}
    (hr : (tight.reaction (script.world cooldown) decode round'.attempt m').1 = .again delay) :
    (c.reaction (script.world cooldown) decode round.attempt m).1 = .again delay ∧
      tight.closing decode round'.toTrial = c.closing decode round.toTrial := by
  have hn : round'.attempt.number = round.attempt.number := by rw [hm'.number, hm.number]
  have hbudget : round'.attempt.budget = round.attempt.budget := by
    rw [hm'.budget, hm.budget, h.budget]
  have hbegun : round'.begunAt = round.begunAt :=
    congrArg Prod.snd (hm'.opening_eq hm hnow)
  have ha := hm'.cutoff
  rw [hbegun, h.budget] at ha
  obtain ⟨draw, hreact'⟩ := hm'.reaction_eq decode
  obtain ⟨draw', hreact⟩ := hm.reaction_eq decode
  rw [hreact'] at hr
  obtain ⟨error, herror, hv⟩ := (react_again_iff ..).mp hr
  obtain ⟨⟨-, hretryable, -⟩, -⟩ := (verdict_retry_iff ..).mp hv
  have hretriable := (attemptResult_error herror).2.mp hretryable
  have hresult := h.attemptResult_eq decode hn hbudget ha hm.cutoff hretriable
  have hplay : script.play round'.attempt m'.now = script.play round.attempt m.now := by
    rw [hnow]
    exact h.play_eq hn ha hm.cutoff (hm'.ending ▸ hretriable)
  have hending : round'.ending = round.ending :=
    hm'.ending.trans ((congrArg Prod.fst hplay).trans hm.ending.symm)
  have hended : round'.endedAt = round.endedAt :=
    hm'.endedAt.trans ((congrArg Prod.snd hplay).trans hm.endedAt.symm)
  have hreacted : (script.world cooldown).now (c.reactionState (script.world cooldown)
        round.attempt m) =
      (script.world cooldown).now (tight.reactionState (script.world cooldown)
        round'.attempt m') :=
    congrArg Prod.snd hplay.symm
  refine ⟨?_, ?_⟩
  · rw [hreact, react_again_iff, ← hn, hreacted, ← hending, ← hresult]
    exact ⟨error, herror, h.verdict hj hv⟩
  · rw [closing, closing, hresult, hending, hended]

theorem Goes.tightened {rounds' : List Round} {end?' : Option (CallEnd α × Script.Moment)}
    (h' : tight.Goes (script.world cooldown) decode fuel made m' rounds' end?')
    (h : tight.Tightens c) (hj : c.client.schedule.hasJitter = false) {rounds : List Round}
    {end? : Option (CallEnd α × Script.Moment)}
    (hc : c.Goes (script.world cooldown) decode fuel made m rounds end?) (hnow : m.now = m'.now) :
    (end?.isSome = true → end?'.isSome = true) ∧
      rounds'.map (·.opening) <+: rounds.map (·.opening) ∧
      rounds'.dropLast.map (tight.closing decode ·.toTrial) <+:
        rounds.map (c.closing decode ·.toTrial) := by
  induction h' generalizing m rounds end? with
  | spent =>
    cases hc
    simp
  | refused hg => simp
  | @ended _ _ _ round' _ journal' hm' hwait' hr' =>
    refine ⟨by simp, ?_, by simp⟩
    cases hc with
    | refused hg => exact absurd hg (h.not_refused hm' hnow)
    | ended journal hm hwait hr => simp [hm'.opening_eq hm hnow]
    | again journal hm hwait hr hrest => simp [hm'.opening_eq hm hnow]
  | @again _ _ _ round' delay rest' _ journal' hm' hwait' hr' hrest' ih =>
    cases hc with
    | refused hg => exact absurd hg (h.not_refused hm' hnow)
    | ended journal hm hwait hr =>
      rw [(h.again hj hm' hm hnow hr').1] at hr
      cases hr
    | again journal hm hwait hr hrest =>
      obtain ⟨hsame, hclosing⟩ := h.again hj hm' hm hnow hr'
      rw [hsame] at hr
      cases hr
      have hended : round'.endedAt = _ := congrArg (·.2.1) hclosing
      obtain ⟨hends, hopenings, hclosings⟩ := ih hrest (by
        rw [hm.now_sleep, hm'.now_sleep, hended]
        rfl)
      refine ⟨by simpa using hends, ?_, ?_⟩
      · simp only [List.map_cons, hm'.opening_eq hm hnow]
        exact List.cons_prefix_cons.mpr ⟨rfl, hopenings⟩
      · cases rest' with
        | nil => simp
        | cons next rest' =>
          rw [List.dropLast_cons_cons, List.map_cons, List.map_cons, hclosing]
          exact List.cons_prefix_cons.mpr ⟨rfl, hclosings⟩

end

/-- A tighter call ends if the other one does, and its attempts, as logs of both runs hold them, are
the first of the other one's: they have the same numbers, begin at the same moments and end alike,
but for the last one, which may end otherwise. Nothing is random for either but the numbers that
nothing depends on. -/
theorem tightened_run (script : Script) (cooldown : Instant → Cooldown) {tight c : Call}
    (h : tight.Tightens c) (hj : c.client.schedule.hasJitter = false) (decode : Decoder α)
    (fuel : Nat) (start : Instant) (drawn drawn' : Nat) :
    let w := script.world cooldown
    let trials := c.trials w decode fuel 0 ⟨start, drawn⟩
    let trials' := tight.trials w decode fuel 0 ⟨start, drawn'⟩
    c.run w.logged decode fuel 0 (⟨start, drawn⟩, []) =
        (c.run w decode fuel 0 ⟨start, drawn⟩).map (fun (e, m) => (e, m, trials)) ∧
      tight.run w.logged decode fuel 0 (⟨start, drawn'⟩, []) =
        (tight.run w decode fuel 0 ⟨start, drawn'⟩).map (fun (e, m) => (e, m, trials')) ∧
      ((c.run w decode fuel 0 ⟨start, drawn⟩).isSome = true →
        (tight.run w decode fuel 0 ⟨start, drawn'⟩).isSome = true) ∧
      trials'.map Trial.opening <+: trials.map Trial.opening ∧
      trials'.dropLast.map (tight.closing decode) <+: trials.map (c.closing decode) := by
  intro w trials trials'
  obtain ⟨hends, hopenings, hclosings⟩ := (tight.goes w decode fuel 0 ⟨start, drawn'⟩).tightened
    h hj (c.goes w decode fuel 0 ⟨start, drawn⟩) rfl
  refine ⟨c.run_trials .., tight.run_trials .., hends, ?_, ?_⟩
  · unfold trials trials' Call.trials
    rw [List.map_map, List.map_map]
    exact hopenings
  · unfold trials trials' Call.trials
    rw [← List.map_dropLast, List.map_map, List.map_map]
    exact hclosings

/-- The first call makes four attempts; the deadline of the second one cuts off its second
attempt, before its lower limit of retries is reached. -/
theorem tightened_run_of_unavailable :
    let settings := { Settings.patient with
      timeout := .ofMillis 1150
      schedule := .steady (.ofSecs 1) 2
      predicate := .onServerError }
    let w := Script.unavailable.world fun _ => .ofWindow .zero
    let c := Call.plain Settings.patient.plainClient
    let tight := Call.plain settings.plainClient
    tight.Tightens c ∧ c.client.schedule.hasJitter = false ∧
      ∃ e m log, c.run w.logged Decoder.ignore 5 0 (⟨⟨0⟩, 0⟩, []) = some (e, m, log) ∧
        ∃ e' m' log', tight.run w.logged Decoder.ignore 5 0 (⟨⟨0⟩, 7⟩, []) = some (e', m', log') ∧
          log.length = 4 ∧ log'.length = 2 ∧
          log'.map Trial.opening <+: log.map Trial.opening ∧
          log'.dropLast.map (tight.closing Decoder.ignore) <+:
            log.map (c.closing Decoder.ignore) := by
  intro settings w c tight
  have hd : c.deadline? = some ⟨30000000000⟩ := by decide
  have hd' : tight.deadline? = some ⟨1150000000⟩ := by decide
  have h : tight.Tightens c := {
    startedAt := rfl
    target := rfl
    parent := rfl
    request := rfl
    client := rfl
    deadline := by
      intro d hcd
      rw [hd] at hcd
      cases hcd
      exact ⟨_, hd', by decide⟩
    schedule := .steady (by omega)
    predicate := Or.inr rfl }
  have hends : (c.run w Decoder.ignore 5 0 ⟨⟨0⟩, 0⟩).isSome = true := by decide
  obtain ⟨hlog, hlog', hsome, hopenings, hclosings⟩ :=
    tightened_run Script.unavailable (fun _ => .ofWindow .zero) h rfl Decoder.ignore 5 ⟨0⟩ 0 7
  obtain ⟨⟨e, m⟩, he⟩ := Option.isSome_iff_exists.mp hends
  obtain ⟨⟨e', m'⟩, he'⟩ := Option.isSome_iff_exists.mp (hsome hends)
  refine ⟨h, rfl, e, m, _, hlog.trans (congrArg _ he), e', m', _, hlog'.trans (congrArg _ he'),
    by decide, by decide, hopenings, hclosings⟩

end Call

end ServiceCall
