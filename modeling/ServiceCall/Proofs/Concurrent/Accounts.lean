import ServiceCall.Proofs.Concurrent.Waiting
import ServiceCall.Proofs.Pool.Ledger

/-!
# Nothing is left behind

However attempts end and whatever their order, the gauge of requests in flight counts those that
got a permit and have not ended, and the permits in hand are those of the attempts that have not
read their answer to the end.
-/

namespace ServiceCall.Concurrent

variable {α : Type} {client : Client} {c : Call} {decode : Decoder α} {now : Instant}
  {t t' : Traffic} {stage stage' : Stage α} {act : Act} {limit : Nat} {rest : List Standing}

/-! ## Where a call stands -/

namespace Stage

/-- An attempt has asked for a permit, and has not ended. -/
def attempting : Stage α → Bool
  | .queued .. | .sent .. | .reading .. | .answered .. | .noted .. => true
  | _ => false

/-- An attempt has obtained a permit, and has not ended. -/
def inFlight : Stage α → Bool
  | .sent .. | .reading .. | .answered .. | .noted .. => true
  | _ => false

/-- An attempt has obtained a permit, and has neither read its answer to the end nor ended. -/
def permitted : Stage α → Bool
  | .sent .. | .reading .. => true
  | _ => false

def standing? (key : String) : Stage α → Option Standing
  | .queued _ id => some ⟨id, key, .queued⟩
  | .sent _ id => some ⟨id, key, .inFlight⟩
  | .reading _ id _ _ => some ⟨id, key, .inFlight⟩
  | .answered _ id _ => some ⟨id, key, .answered⟩
  | .noted _ id _ => some ⟨id, key, .answered⟩
  | _ => none

theorem standing?_following (key : String) (a : Attempt) (now : Instant) (next : Next α) :
    (following a now next).standing? key = none := by
  cases next <;> rfl

end Stage

theorem Leaves.standing? {a : Attempt} {id : Nat} {ending : Ending}
    (h : Leaves now stage a id ending) (key : String) :
    ∃ progress, stage.standing? key = some ⟨id, key, progress⟩ := by
  cases h <;> exact ⟨_, rfl⟩

/-- The destination of a call, as the permits know it. -/
def Caller.key (m : Caller α) : String := Text.lower m.call.target.poolKey

def Caller.standing? (m : Caller α) : Option Standing := m.stage.standing? m.key

def State.roster (s : State α) : List Standing := s.callers.filterMap Caller.standing?

/-! ## Steps and runs -/

theorem Does.tracks (h : Does c decode now t stage act stage' t')
    (ht : t.Tracks limit
      ((stage.standing? (Text.lower c.target.poolKey)).toList ++ rest)) :
    t'.Tracks limit ((stage'.standing? (Text.lower c.target.poolKey)).toList ++ rest) := by
  cases h with
  | admitted | refused | headed => exact ht
  | throttled => exact ⟨ht.nodup, ht.attempts, ht.inFlight, ht.reached, ht.ids, ht.granted⟩
  | asked id hid => exact ht.ask hid _
  | sent hgranted => exact ht.send hgranted
  | read => exact ht.answered
  | left draw hl =>
    obtain ⟨progress, hstanding⟩ := hl.standing? (Text.lower c.target.poolKey)
    rw [hstanding] at ht
    rw [Stage.standing?_following]
    exact ht.finish

theorem roster_perm {callers : List (Caller α)} {i : Nat} {m : Caller α}
    (hm : callers[i]? = some m) : ∃ rest, ∀ m', ((callers.set i m').filterMap Caller.standing?).Perm
      (m'.standing?.toList ++ rest) := by
  obtain ⟨hi, rfl⟩ := List.getElem?_eq_some_iff.mp hm
  refine ⟨(callers.take i).filterMap Caller.standing? ++
    (callers.drop (i + 1)).filterMap Caller.standing?, fun m' => ?_⟩
  rw [List.set_eq_take_append_cons_drop, if_pos hi, List.filterMap_append, List.filterMap_cons]
  cases m'.standing? with
  | none => exact .refl _
  | some x => exact List.perm_middle

theorem Step.tracks {s s' : State α} {entry : Entry} (h : Step client s entry s')
    (ht : s.traffic.Tracks limit s.roster) : s'.traffic.Tracks limit s'.roster := by
  cases h with
  | passed => exact ht
  | began c decode hc =>
    have hroster : State.roster { s with callers := s.callers ++ [⟨c, decode, .resting 0 s.now⟩] } =
        s.roster := by
      simp [State.roster, Caller.standing?, Stage.standing?]
    rwa [hroster]
  | @acted i m act stage t hm hd =>
    obtain ⟨rest, hperm⟩ := roster_perm hm
    have hsame : s.callers.set i m = s.callers := by
      obtain ⟨hi, rfl⟩ := List.getElem?_eq_some_iff.mp hm
      exact List.set_getElem_self hi
    have hbefore := hperm m
    rw [hsame] at hbefore
    exact (hd.tracks (ht.perm hbefore)).perm (hperm { m with stage }).symm
  | idled | scraped => exact ⟨ht.nodup, ht.attempts, ht.inFlight, ht.reached, ht.ids, ht.granted⟩

theorem Run.tracks {s₀ s : State α} {entries : List Entry} (h : Run client s₀ entries s)
    (h₀ : s₀.traffic.Tracks limit s₀.roster) : s.traffic.Tracks limit s.roster := by
  induction h with
  | nil => exact h₀
  | snoc _ hs ih => exact hs.tracks ih

/-! ## The sums -/

theorem countP_roster (s : State α) (p : Standing → Bool) :
    s.roster.countP p = s.callers.countP fun m => m.standing?.any p := by
  unfold State.roster
  induction s.callers with
  | nil => rfl
  | cons m callers ih =>
    rw [List.filterMap_cons, List.countP_cons]
    cases hm : m.standing? with
    | none => simpa [hm] using ih
    | some x => rw [List.countP_cons, ih]; rfl

theorem any_inFlight (m : Caller α) :
    (m.standing?.any fun x => x.progress ≠ .queued) = m.stage.inFlight := by
  unfold Caller.standing?
  cases m.stage <;> rfl

theorem any_permitted (m : Caller α) (key : String) :
    (m.standing?.any fun x => x.key = key ∧ x.progress = .inFlight) =
      (decide (m.key = key) && m.stage.permitted) := by
  unfold Caller.standing?
  cases m.stage <;> simp [Stage.standing?, Stage.permitted]

theorem standing?_eq_none {m : Caller α} (h : m.stage.attempting = false) :
    m.standing? = none := by
  unfold Caller.standing?
  revert h
  cases m.stage <;> simp [Stage.attempting, Stage.standing?]

/-- The gauge counts the attempts that have obtained a permit and not ended, and the permits in
hand are those of the attempts among them that have not read their answer to the end. So nothing
is in flight and every permit is free when there is no attempt. -/
theorem accounts_balance {s : State α} {entries : List Entry}
    (h : Run client (State.initial client now) entries s) :
    s.traffic.gauges.inFlight = s.callers.countP (·.stage.inFlight) ∧
      (∀ key, s.traffic.out key = s.callers.countP fun m => m.key = key ∧ m.stage.permitted) ∧
      (∀ q ∈ s.traffic.permits.queues, q.free + s.traffic.reserved q.key + s.traffic.out q.key =
        client.maxConnectionsPerHost) ∧
      ((∀ m ∈ s.callers, m.stage.attempting = false) → s.traffic.gauges.inFlight = 0 ∧
        ∀ key, ∀ q ∈ s.traffic.permits.withKey key, q.free = client.maxConnectionsPerHost) := by
  have ht : s.traffic.Tracks client.maxConnectionsPerHost s.roster :=
    h.tracks (Traffic.tracks_quiet _ _)
  have hgauge := ht.inFlight
  rw [countP_roster] at hgauge
  simp only [any_inFlight] at hgauge
  refine ⟨hgauge, fun key => ?_, fun q hq => ht.free_add hq, fun hnone => ?_⟩
  · rw [ht.out_eq, countP_roster]
    simp only [any_permitted]
    simp only [Bool.decide_and, Bool.decide_eq_true]
  · have hroster : s.roster = [] :=
      List.filterMap_eq_nil_iff.mpr fun m hm => standing?_eq_none (hnone m hm)
    rw [hroster] at ht
    exact ⟨ht.inFlight, fun key q hq => ht.free_of_nil hq⟩

/-- One attempt has read its answer, and the other one has not sent its request yet. -/
theorem run_to_answer : ∃ entries, ∃ s : State Unit, ∃ a b answer,
    Run single (.initial single ⟨0⟩) entries s ∧
      s.callers = [⟨.plain single, .ignore, .answered a 0 answer⟩,
        ⟨.plain single, .ignore, .queued b 1⟩] := by
  have now_le : (⟨0⟩ : Instant) ≤ ⟨0⟩ := Int.le_refl _
  exact ⟨_, _, _, _, _, .snoc (.snoc (.snoc (.snoc (.snoc (.snoc (.snoc (.snoc (.snoc .nil
    (.began (.plain single) .ignore rfl))
    (.began (.plain single) .ignore rfl))
    (.acted (i := 0) rfl (.admitted (.ofSpanDraw 0) now_le rfl)))
    (.acted (i := 1) rfl (.admitted (.ofSpanDraw 1) now_le rfl)))
    (.acted (i := 0) rfl (.asked 0 rfl)))
    (.acted (i := 1) rfl (.asked 1 rfl)))
    (.acted (i := 0) rfl (.sent rfl)))
    (.acted (i := 0) rfl (.headed .tooManyRequests .empty)))
    (.acted (i := 0) rfl (.read [])), rfl⟩

theorem accounts_balance_of_two : ∃ entries, ∃ s : State Unit,
    Run single (.initial single ⟨0⟩) entries s ∧ s.traffic.gauges.inFlight = 1 ∧
      (∀ key, s.traffic.out key = 0) ∧
      ∀ q ∈ s.traffic.permits.queues, q.free + s.traffic.reserved q.key = 1 := by
  obtain ⟨entries, s, a, b, answer, hr, hcallers⟩ := run_to_answer
  obtain ⟨hgauge, hout, hfree, -⟩ := accounts_balance hr
  rw [hcallers] at hgauge
  have hnone : ∀ key, s.traffic.out key = 0 := by
    intro key
    rw [hout, hcallers]
    simp [Stage.permitted]
  refine ⟨entries, s, hr, hgauge, hnone, fun q hq => ?_⟩
  have hsum := hfree q hq
  rwa [hnone] at hsum

end ServiceCall.Concurrent
