import ServiceCall.Proofs.Call.Decisions
import ServiceCall.Proofs.Call.Worlds
import ServiceCall.Proofs.Concurrent.Steps

/-!
# Requests that waited

The cool-down is checked when an attempt begins, and the request is handed to the transport once
there is a permit. A 429 that is recorded while the request waits does not hold it back.
-/

namespace ServiceCall

theorem Cooldown.remaining?_isSome_iff (c : Cooldown) (now : Instant) :
    (c.remaining? now).isSome = true ↔ ∃ t, c.last = some t ∧ now < t.endsAt := by
  unfold remaining?
  cases c.last with
  | none => simp
  | some t => by_cases h : now < t.endsAt <;> simp [h]

theorem Cooldown.remaining?_eq_none_of_le {c : Cooldown} {now later : Instant}
    (h : c.remaining? now = none) (hle : now ≤ later) : c.remaining? later = none := by
  rw [← Option.not_isSome_iff_eq_none, remaining?_isSome_iff] at *
  rintro ⟨t, ht, hlt⟩
  refine h ⟨t, ht, ?_⟩
  simp only [Instant.le_iff, Instant.lt_iff] at *
  omega

namespace Concurrent

variable {α : Type} {client : Client} {s₀ s s' : State α} {entries : List Entry} {i : Nat}

/-! ## Since the check -/

/-- The attempt has been let through, and its request is not yet with the transport. -/
def Stage.Awaits (a : Attempt) : Stage α → Prop
  | .admitted b => b = a
  | .queued b _ => b = a
  | _ => False

theorem Stage.not_awaits_following (a b : Attempt) (now : Instant) (next : Next α) :
    ¬ (following a now next).Awaits b := by
  cases next <;> exact id

theorem Does.awaits {c : Call} {decode : Decoder α} {now : Instant} {t t' : Traffic}
    {stage stage' : Stage α} {act : Act} (h : Does c decode now t stage act stage' t')
    {a : Attempt} (hw : stage'.Awaits a) :
    act = .admitted a ∨ stage.Awaits a ∧ ∀ b, act ≠ .admitted b := by
  cases h with
  | admitted => cases hw; exact Or.inl rfl
  | asked => exact Or.inr ⟨hw, by simp⟩
  | left => exact (Stage.not_awaits_following _ _ _ _ hw).elim
  | _ => exact hw.elim

/-- A call whose attempt awaits its permit has passed the check at some time in the run, and did
not pass it again since. -/
theorem Run.admitted_before (h : Run client s₀ entries s) (h₀ : s₀.callers = []) {m : Caller α}
    {a : Attempt} (hm : s.callers[i]? = some m) (hw : m.stage.Awaits a) :
    ∃ before after s₁ s₂, entries = before ++ .acted i (.admitted a) :: after ∧
      Run client s₀ before s₁ ∧ Step client s₁ (.acted i (.admitted a)) s₂ ∧
      Run client s₂ after s ∧ ∀ b, .acted i (.admitted b) ∉ after := by
  induction h generalizing m with
  | nil => simp [h₀] at hm
  | @snoc entries s entry s' hr hs ih =>
    -- The check was before this step, which is none itself.
    have extend : ∀ m : Caller α, s.callers[i]? = some m → m.stage.Awaits a →
        (∀ b, entry ≠ .acted i (.admitted b)) →
        ∃ before after s₁ s₂, entries ++ [entry] = before ++ .acted i (.admitted a) :: after ∧
          Run client s₀ before s₁ ∧ Step client s₁ (.acted i (.admitted a)) s₂ ∧
          Run client s₂ after s' ∧ ∀ b, .acted i (.admitted b) ∉ after := by
      intro m hm hw hentry
      obtain ⟨before, after, s₁, s₂, heq, hr₁, hadmitted, hr₂, hno⟩ := ih hm hw
      refine ⟨before, after ++ [entry], s₁, s₂, by simp [heq], hr₁, hadmitted, .snoc hr₂ hs, ?_⟩
      intro b hb
      rcases List.mem_append.mp hb with hb | hb
      · exact hno b hb
      · exact hentry b (List.mem_singleton.mp hb).symm
    rcases hs.caller_cases hm with ⟨-, -, hrest⟩ | ⟨act, m₁, rfl, hm₁, hd, -, -⟩ | ⟨hother, hm₁⟩
    · rw [hrest] at hw
      exact hw.elim
    · rcases hd.awaits hw with rfl | ⟨hw₁, hact⟩
      · exact ⟨entries, [], s, s', rfl, hr, hs, .nil, by simp⟩
      · exact extend m₁ hm₁ hw₁ fun b hb => hact b (Entry.acted.inj hb).2
    · exact extend m hm₁ hw fun b => hother (.admitted b)

theorem Step.cool_of_admitted {a : Attempt} (h : Step client s (.acted i (.admitted a)) s') :
    s.traffic.cooldown.remaining? s.now = none := by
  obtain ⟨c, decode, stage, stage', t, -, hd, -⟩ := h.of_acted
  cases hd with
  | admitted span hw hg => exact ((Call.gate_admitted_iff ..).mp hg).1

/-- A request is handed to the transport during a cool-down exactly if the cool-down began since
the check before its attempt, and was not replaced by one that is over. -/
theorem sent_in_cooldown_iff {now : Instant} (h : Run client (State.initial client now) entries s)
    (hs : Step client s (.acted i .sent) s') :
    ∃ before a after, entries = before ++ .acted i (.admitted a) :: after ∧
      (∀ b, .acted i (.admitted b) ∉ after) ∧
      ((s.traffic.cooldown.remaining? s.now).isSome = true ↔
        ∃ t, lastThrottle? after = some t ∧ s.now < t.endsAt) := by
  obtain ⟨c, decode, stage, stage', t, hm, hd, -⟩ := hs.of_acted
  obtain ⟨a, hw⟩ : ∃ a, stage.Awaits a := by
    cases hd with
    | @sent a id hg => exact ⟨a, rfl⟩
  obtain ⟨before, after, s₁, s₂, heq, -, hadmitted, hr, hno⟩ := h.admitted_before rfl hm hw
  refine ⟨before, a, after, heq, hno, ?_⟩
  -- What was recorded before the check was over then, and still is.
  have hcool := hadmitted.cool_of_admitted
  have hle : s₁.now ≤ s.now := Int.le_trans hadmitted.now_le hr.now_le
  have hsame : s₂.traffic.cooldown = s₁.traffic.cooldown := hadmitted.cooldown
  rw [hr.cooldown, hsame]
  cases hlast : lastThrottle? after with
  | none =>
    have hstill := Cooldown.remaining?_eq_none_of_le hcool hle
    simp [hstill]
  | some t => simp [Cooldown.remaining?_isSome_iff]

def single : Client := { Settings.patient with maxConnectionsPerHost := 1 }.plainClient

/-- Two calls pass the check, the first one gets a 429 while the second one waits, and then the
second one has the permit. -/
theorem run_of_two : ∃ entries, ∃ s s' : State Unit,
    Run single (.initial single ⟨0⟩) entries s ∧ Step single s (.acted 1 .sent) s' ∧
      s.traffic.cooldown.remaining? s.now = some (.ofSecs 10) := by
  have now_le : (⟨0⟩ : Instant) ≤ ⟨0⟩ := Int.le_refl _
  refine ⟨_, _, _, .snoc (.snoc (.snoc (.snoc (.snoc (.snoc (.snoc (.snoc (.snoc (.snoc .nil
    (.began (.plain single) .ignore rfl))
    (.began (.plain single) .ignore rfl))
    (.acted (i := 0) rfl (.admitted (.ofSpanDraw 0) now_le rfl)))
    (.acted (i := 1) rfl (.admitted (.ofSpanDraw 1) now_le rfl)))
    (.acted (i := 0) rfl (.asked 0 rfl)))
    (.acted (i := 1) rfl (.asked 1 rfl)))
    (.acted (i := 0) rfl (.sent rfl)))
    (.acted (i := 0) rfl (.headed .tooManyRequests .empty)))
    (.acted (i := 0) rfl (.read [])))
    (.acted (i := 0) rfl (.throttled .zero rfl)), .acted (i := 1) rfl (.sent ?_), ?_⟩
  · rfl
  · rfl

theorem sent_in_cooldown_of_two : ∃ entries, ∃ s s' : State Unit,
    Run single (.initial single ⟨0⟩) entries s ∧ Step single s (.acted 1 .sent) s' ∧
      ∃ before a after, entries = before ++ .acted 1 (.admitted a) :: after ∧
        (∀ b, .acted 1 (.admitted b) ∉ after) ∧
        ∃ t, lastThrottle? after = some t ∧ s.now < t.endsAt := by
  obtain ⟨entries, s, s', hr, hs, hremaining⟩ := run_of_two
  obtain ⟨before, a, after, heq, hno, hiff⟩ := sent_in_cooldown_iff hr hs
  exact ⟨entries, s, s', hr, hs, before, a, after, heq, hno, hiff.mp (by rw [hremaining]; rfl)⟩

theorem not_every_sent_is_cool :
    ¬ ∀ (client : Client) (now : Instant) (entries : List Entry) (s s' : State Unit) (i : Nat),
      Run client (.initial client now) entries s → Step client s (.acted i .sent) s' →
        s.traffic.cooldown.remaining? s.now = none := by
  intro h
  obtain ⟨entries, s, s', hr, hs, hremaining⟩ := run_of_two
  have hnone := h single ⟨0⟩ entries s s' 1 hr hs
  rw [hremaining] at hnone
  cases hnone

end Concurrent

end ServiceCall
