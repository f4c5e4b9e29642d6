import ServiceCall.Proofs.Call.Decisions
import ServiceCall.Proofs.Call.Worlds
import ServiceCall.Proofs.Concurrent.Steps

/-!
# From a 429 to its cool-down

A 429 is recorded once its answer has been read to the end, and then the call is over. An answer
that is not read to its end leaves no trace, even if its head said 429.
-/

namespace ServiceCall.Concurrent

variable {α : Type} {client : Client} {s₀ s₁ s₂ s₃ s : State α} {before during later : List Entry}
  {i id : Nat} {c : Call} {decode : Decoder α} {a : Attempt} {status : Http.Status}
  {headers : Http.Headers} {ending : Ending}

/-! ## The rest of the answer -/

theorem not_mem_concat {entries : List Entry} {entry e : Entry} (h : e ∉ entries ++ [entry]) :
    e ∉ entries ∧ entry ≠ e := by
  simpa [eq_comm] using h

/-- Until the attempt ends, the rest of the answer is read, and a 429 is recorded after that. -/
theorem Run.after_head (h : Run client s₁ during s₂)
    (hm : s₁.callers[i]? = some ⟨c, decode, .reading a id status headers⟩)
    (hstay : ∀ e, .acted i (.left e) ∉ during) :
    ∃ stage, s₂.callers[i]? = some ⟨c, decode, stage⟩ ∧
      ((stage = .reading a id status headers ∨
          ∃ body, stage = .answered a id ⟨status, headers, body⟩) ∧
          (∀ t, .acted i (.throttled t) ∉ during) ∨
        (∃ body, stage = .noted a id ⟨status, headers, body⟩) ∧
          ∃ t, .acted i (.throttled t) ∈ during) := by
  induction h with
  | nil => exact ⟨_, hm, Or.inl ⟨Or.inl rfl, by simp⟩⟩
  | @snoc entries s entry s' hr hs ih =>
    obtain ⟨stage, hstage, hcases⟩ := ih fun e => (not_mem_concat (hstay e)).1
    by_cases hown : ∃ act, entry = .acted i act
    · obtain ⟨act, rfl⟩ := hown
      obtain ⟨c', decode', stage₁, stage₂, t, hm₁, hd, hm₂, -, -⟩ := hs.of_acted
      rw [hstage] at hm₁
      cases hm₁
      refine ⟨stage₂, hm₂, ?_⟩
      -- There is one way on from each stage, but for the end of the attempt.
      rcases hcases with ⟨rfl | ⟨body, rfl⟩, hno⟩ | ⟨⟨body, rfl⟩, t, ht⟩
      · cases hd with
        | read body => exact Or.inl ⟨Or.inr ⟨body, rfl⟩, by simpa using hno⟩
        | left => exact absurd rfl (not_mem_concat (hstay _)).2
      · cases hd with
        | throttled clock hs =>
          exact Or.inr ⟨⟨body, rfl⟩, _, List.mem_append_right _ (List.mem_singleton_self _)⟩
        | left => exact absurd rfl (not_mem_concat (hstay _)).2
      · cases hd with
        | left => exact absurd rfl (not_mem_concat (hstay _)).2
    · have hother : ∀ act, entry ≠ .acted i act := fun act h => hown ⟨act, h⟩
      refine ⟨stage, hs.caller_of_other hstage hother, ?_⟩
      have hthrottled : ∀ t, .acted i (.throttled t) ∈ entries ++ [entry] ↔
          .acted i (.throttled t) ∈ entries := by
        intro t
        simp [(hother (.throttled t)).symm]
      simpa only [hthrottled] using hcases

theorem Run.throttle_after_head (h : Run client s₁ during s₂)
    (hm : s₁.callers[i]? = some ⟨c, decode, .reading a id status headers⟩)
    (hstay : ∀ e, .acted i (.left e) ∉ during) {t : Throttle}
    (ht : .acted i (.throttled t) ∈ during) :
    s₁.now ≤ t.observedAt ∧ t.observedAt ≤ s₂.now ∧
      ∃ clock, t = throttleAt s₁.traffic.cooldown headers t.observedAt clock := by
  induction h with
  | nil => cases ht
  | @snoc entries s entry s' hr hs ih =>
    have hstay' : ∀ e, .acted i (.left e) ∉ entries := fun e => (not_mem_concat (hstay e)).1
    rcases List.mem_append.mp ht with ht | ht
    · obtain ⟨h1, h2, h3⟩ := ih hstay' ht
      exact ⟨h1, Int.le_trans h2 hs.now_le, h3⟩
    · rw [List.mem_singleton] at ht
      subst ht
      obtain ⟨stage, hstage, hcases⟩ := hr.after_head hm hstay'
      obtain ⟨c', decode', stage₁, stage₂, t', hm₁, hd, -, -, hnow⟩ := hs.of_acted
      rw [hstage] at hm₁
      cases hm₁
      cases hd with
      | @throttled _ _ answer clock hs429 =>
        obtain rfl : answer.headers = headers := by
          rcases hcases with ⟨hstage | ⟨body, hstage⟩, -⟩ | ⟨⟨body, hstage⟩, -⟩ <;> cases hstage
          rfl
        refine ⟨hr.now_le, ?_, clock, ?_⟩
        · rw [hnow]
          exact Int.le_refl _
        · rw [hr.cooldown]
          rfl

/-! ## The end of the call -/

theorem Run.ended_stays (h : Run client s₁ later s) {result : Except CallError (Response α)}
    (hm : s₁.callers[i]? = some ⟨c, decode, .ended result⟩) :
    s.callers[i]? = some ⟨c, decode, .ended result⟩ ∧ ∀ act, .acted i act ∉ later := by
  induction h with
  | nil => exact ⟨hm, by simp⟩
  | @snoc entries s entry s' hr hs ih =>
    obtain ⟨hstage, hno⟩ := ih
    have hother : ∀ act, entry ≠ .acted i act := by
      rintro act rfl
      obtain ⟨c', decode', stage₁, stage₂, t, hm₁, hd, -⟩ := hs.of_acted
      rw [hstage] at hm₁
      cases hm₁
      cases hd with
      | left draw hl => cases hl
    refine ⟨hs.caller_of_other hstage hother, ?_⟩
    intro act hact
    rcases List.mem_append.mp hact with hact | hact
    · exact hno act hact
    · exact hother act (List.mem_singleton.mp hact).symm

/-- An attempt that gets the head of a 429 has its cool-down recorded by its end exactly if it
reads the answer to the end; then its call is over. -/
theorem recorded_iff_read {now : Instant} (hb : Run client (.initial client now) before s₀)
    (hh : Step client s₀ (.acted i (.headed .tooManyRequests headers)) s₁)
    (hr : Run client s₁ during s₂) (hstay : ∀ e, .acted i (.left e) ∉ during)
    (hl : Step client s₂ (.acted i (.left ending)) s₃) :
    ((∃ t, .acted i (.throttled t) ∈ during) ↔
        ∃ answer record elapsed, ending = .answered answer record elapsed) ∧
      (∀ t, .acted i (.throttled t) ∈ during → s₀.now ≤ t.observedAt ∧ t.observedAt ≤ s₂.now ∧
        ∃ clock, t = throttleAt (.ofWindow client.cooldownWindow) headers t.observedAt clock) ∧
      ((∃ t, .acted i (.throttled t) ∈ during) →
        ∀ later s, Run client s₃ later s → ∀ act, .acted i act ∉ later) := by
  obtain ⟨c, decode, stage₀, stage₁, t₁, -, hd, hm₁, ht₁, hnow₁⟩ := hh.of_acted
  cases hd with
  | @headed a id =>
    obtain ⟨stage₂, hm₂, hcases⟩ := hr.after_head hm₁ hstay
    obtain ⟨c', decode', stage₂', stage₃, t₃, hm₂', hd, hm₃, -, -⟩ := hl.of_acted
    rw [hm₂] at hm₂'
    cases hm₂'
    have hwindow : ∀ t, .acted i (.throttled t) ∈ during → s₀.now ≤ t.observedAt ∧
        t.observedAt ≤ s₂.now ∧ ∃ clock,
          t = throttleAt (.ofWindow client.cooldownWindow) headers t.observedAt clock := by
      intro t ht
      have h := hr.throttle_after_head hm₁ hstay ht
      rw [hnow₁, ht₁, hb.cooldown] at h
      exact h
    cases hd with
    | left draw hleaves =>
      rcases hcases with ⟨hreading, hno⟩ | ⟨⟨body, rfl⟩, ht⟩
      · refine ⟨⟨fun ⟨t, ht⟩ => absurd ht (hno t), ?_⟩, hwindow,
          fun ⟨t, ht⟩ => absurd ht (hno t)⟩
        rintro ⟨answer, record, elapsed, rfl⟩
        rcases hreading with rfl | ⟨body, rfl⟩
        · cases hleaves
        · cases hleaves with
          | read record elapsed hs => exact absurd rfl hs
      · cases hleaves with
        | noted record elapsed =>
          refine ⟨⟨fun _ => ⟨_, record, elapsed, rfl⟩, fun _ => ht⟩, hwindow, ?_⟩
          intro _ later s hlater
          have hfinal : ¬ c.Retriable a (.answered ⟨.tooManyRequests, headers, body⟩ record
              elapsed) := by
            rintro ⟨hserver, -⟩
            cases hserver
          obtain ⟨result, hresult⟩ :=
            Call.react_ended_of_not_retriable decode hfinal s₂.now draw
          rw [hresult] at hm₃
          exact (hlater.ended_stays hm₃).2

def patient : Client := Settings.patient.plainClient

theorem run_to_429 (headers : Http.Headers) : ∃ before, ∃ s₀ s₁ : State Unit, ∃ a,
    Run patient (.initial patient ⟨0⟩) before s₀ ∧
      Step patient s₀ (.acted 0 (.headed .tooManyRequests headers)) s₁ ∧
      s₁.callers[0]? =
        some ⟨.plain patient, .ignore, .reading a 0 .tooManyRequests headers⟩ := by
  have now_le : (⟨0⟩ : Instant) ≤ ⟨0⟩ := Int.le_refl _
  exact ⟨_, _, _, _, .snoc (.snoc (.snoc (.snoc .nil
    (.began (.plain patient) .ignore rfl))
    (.acted (i := 0) rfl (.admitted (.ofSpanDraw 0) now_le rfl)))
    (.acted (i := 0) rfl (.asked 0 rfl)))
    (.acted (i := 0) rfl (.sent rfl)),
    .acted (i := 0) rfl (.headed .tooManyRequests headers), rfl⟩

theorem recorded_of_429 : ∃ before during : List Entry, ∃ s₀ s₁ s₂ s₃ : State Unit, ∃ ending,
    Run patient (.initial patient ⟨0⟩) before s₀ ∧
      Step patient s₀ (.acted 0 (.headed .tooManyRequests .empty)) s₁ ∧
      Run patient s₁ during s₂ ∧ (∀ e, .acted 0 (.left e) ∉ during) ∧
      Step patient s₂ (.acted 0 (.left ending)) s₃ ∧
      (∃ answer record elapsed, ending = .answered answer record elapsed) ∧
      ∀ later s, Run patient s₃ later s → ∀ act, .acted 0 act ∉ later := by
  obtain ⟨before, s₀, s₁, a, hb, hh, hm⟩ := run_to_429 .empty
  obtain ⟨s₂, hread, -, -, hm₂⟩ := Step.exists_acted patient hm (.read [])
  obtain ⟨s₃, hthrottled, -, -, hm₃⟩ := Step.exists_acted patient hm₂ (.throttled .zero rfl)
  obtain ⟨s₄, hleft, -⟩ := Step.exists_acted patient hm₃ (.left 0 (.noted none .zero))
  have hr := Run.snoc (.snoc .nil hread) hthrottled
  obtain ⟨hiff, -, hover⟩ := recorded_iff_read hb hh hr (by simp) hleft
  have hended := hiff.mp ⟨_, List.mem_append_right _ (List.mem_singleton_self _)⟩
  exact ⟨before, _, s₀, s₁, s₃, s₄, _, hb, hh, hr, by simp, hleft, hended,
    hover ⟨_, List.mem_append_right _ (List.mem_singleton_self _)⟩⟩

/-- A 429 whose body breaks off is not recorded. -/
theorem not_every_429_is_recorded :
    ¬ ∀ (client : Client) (now : Instant) (before during : List Entry)
      (s₀ s₁ s₂ s₃ : State Unit) (i : Nat) (headers : Http.Headers) (ending : Ending),
      Run client (.initial client now) before s₀ →
        Step client s₀ (.acted i (.headed .tooManyRequests headers)) s₁ →
        Run client s₁ during s₂ → (∀ e, .acted i (.left e) ∉ during) →
        Step client s₂ (.acted i (.left ending)) s₃ →
        ∃ t, .acted i (.throttled t) ∈ during ∧
          ∀ later s s', Run client s₃ later s → Step client s (.acted i .sent) s' →
            t.endsAt ≤ s.now := by
  intro h
  obtain ⟨before, s₀, s₁, a, hb, hh, hm⟩ := run_to_429 .empty
  obtain ⟨t, ht, -⟩ := h patient ⟨0⟩ before [] s₀ s₁ s₁ _ 0 .empty (.broken false "reset" none)
    hb hh .nil (by simp) (.acted hm (.left 0 (.broken "reset" none)))
  cases ht

end ServiceCall.Concurrent
