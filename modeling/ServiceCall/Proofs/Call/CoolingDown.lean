import ServiceCall.Proofs.Call.Rounds
import ServiceCall.Proofs.Call.Worlds
import ServiceCall.Rehearsal.Performance
import Mathlib.Data.List.Induction

/-!
# Calls of a client that cools down

What a history of 429s, seen by any calls of the client, means for a call that is about to make
an attempt: only the last one counts, and until its window ends the call is over before the
attempt, whatever else holds.
-/

namespace ServiceCall

variable {σ α : Type}

/-! ## Histories -/

/-- A 429 as it was seen; `clock` is the time since 1970. -/
structure Observation where
  headers : Http.Headers
  observedAt : Instant
  clock : Duration

namespace Observation

/-- What the headers ask for, otherwise the window of the client, and at most a day. -/
def window (o : Observation) (standard : Duration) : Duration :=
  min ((o.headers.retryAfter? o.clock).getD standard) (.ofSecs (24 * 60 * 60))

def endsAt (o : Observation) (standard : Duration) : Instant :=
  o.observedAt.after (o.window standard)

theorem nanos_window_le (o : Observation) (standard : Duration) :
    (o.window standard).nanos ≤ 24 * 60 * 60 * 1000000000 := by
  rw [window, Duration.nanos_min]
  exact Nat.le_trans (Nat.min_le_right _ _) (by decide)

/-- A 429 that asks for a minute. -/
def minute : Observation where
  headers := ⟨[(.retryAfter, .ofVisible "60")]⟩
  observedAt := ⟨600000000⟩
  clock := .ofSecs 1000000000

end Observation

namespace Cooldown

/-- The cool-down of a client with this window after these observations, the last one last. -/
def after (window : Duration) (history : List Observation) : Cooldown :=
  history.foldl (fun c o => c.observe o.headers o.observedAt o.clock) (.ofWindow window)

/-- Earlier observations have left no trace. -/
theorem after_eq (window : Duration) (history : List Observation) :
    after window history =
      ⟨window, history.getLast?.map fun o => ⟨o.observedAt, o.endsAt window⟩⟩ := by
  induction history using List.reverseRecOn with
  | nil => rfl
  | append_singleton earlier o ih =>
    rw [after, List.foldl_append, ← after, ih, List.getLast?_concat]
    rfl

theorem remaining?_after_iff (window : Duration) (history : List Observation) (now : Instant)
    (left : Duration) :
    (after window history).remaining? now = some left ↔
      ∃ o, history.getLast? = some o ∧ now < o.endsAt window ∧
        left = (o.endsAt window).since now := by
  unfold remaining?
  rw [after_eq]
  dsimp only
  cases history.getLast? with
  | none => simp
  | some o =>
    by_cases h : now < o.endsAt window
    · simp [h, eq_comm]
    · simp [h]

end Cooldown

/-! ## Calls among others -/

/-- The state holds what all calls of the client share, and drawing a random number leaves that
alone. -/
structure World.Shares (w : World σ) (traffic : σ → Traffic) : Prop where
  cooldown : ∀ s, w.cooldown s = (traffic s).cooldown
  random : ∀ s, traffic (w.random s).2 = traffic s

theorem Rehearsal.world_shares : Rehearsal.world.Shares Rehearsal.traffic where
  cooldown _ := rfl
  random _ := rfl

namespace Call

/-- The call that begins in `s₀` comes, after `made` attempts, to the check before another one. -/
inductive Reaches (w : World σ) (c : Call) (decode : Decoder α) (s₀ : σ) : Nat → σ → Prop
  | start : Reaches w c decode s₀ 0 s₀
  | again {made s round journal s'} (h : Reaches w c decode s₀ made s)
      (ht : c.turn w decode made s = .again round journal s') :
      Reaches w c decode s₀ (made + 1) s'

/-- What the call returns is decided from there, and a log of it holds the attempts so far. -/
theorem Reaches.run_eq {w : World σ} {c : Call} {decode : Decoder α} {s₀ s : σ} {made : Nat}
    (h : c.Reaches w decode s₀ made s) :
    ∃ log : List Trial, log.length = made ∧ ∀ fuel,
      (c.run w.logged decode (made + fuel) 0 (s₀, [])).map (fun (e, t) => (e.result, t)) =
        (c.run w.logged decode fuel made (s, log)).map fun (e, t) => (e.result, t) := by
  induction h with
  | start => exact ⟨[], rfl, fun fuel => by rw [Nat.zero_add]⟩
  | @again made s round journal s' _ ht ih =>
    obtain ⟨log, hlen, hrun⟩ := ih
    refine ⟨log ++ [round.toTrial], by rw [List.length_append, hlen]; rfl, ?_⟩
    intro fuel
    have hlogged : c.turn w.logged decode made (s, log) =
        .again round journal (s', log ++ [round.toTrial]) := by
      rw [turn_logged, ht]
      rfl
    rw [Nat.add_assoc, Nat.add_comm 1, hrun, run_succ, hlogged, Option.map_map]
    rfl

theorem turn_refused_iff (w : World σ) (c : Call) (decode : Decoder α) (made : Nat) (s s' : σ)
    (error : CallError) :
    c.turn w decode made s = .refused error s' ↔
      c.gate (w.cooldown (w.random s).2) made (w.now (w.random s).2) (.ofSpanDraw (w.random s).1) =
        .refused error ∧ s' = (w.random s).2 := by
  unfold turn
  cases c.gate (w.cooldown (w.random s).2) made (w.now (w.random s).2)
    (.ofSpanDraw (w.random s).1) with
  | refused error' => simp [eq_comm]
  | admitted a =>
    dsimp only
    generalize c.reaction w decode a s = reaction
    obtain ⟨next, journal⟩ := reaction
    cases next <;> simp

/-- A turn is a backoff as long as the cool-down lasts, whatever the deadline is. -/
theorem turn_backoff_iff (w : World σ) (c : Call) (decode : Decoder α) (made : Nat) (s : σ) :
    (∃ error s', c.turn w decode made s = .refused error s' ∧ error.isExplicitBackoff = true) ↔
      ∃ left, (w.cooldown (w.random s).2).remaining? (w.now (w.random s).2) = some left := by
  simp only [turn_refused_iff, gate_refused_iff]
  constructor
  · rintro ⟨error, s', ⟨⟨left, hleft, -⟩ | ⟨-, -, rfl⟩, -⟩, hbackoff⟩
    · exact ⟨left, hleft⟩
    · cases hbackoff
  · rintro ⟨left, hleft⟩
    exact ⟨_, _, ⟨Or.inl ⟨left, hleft, rfl⟩, rfl⟩, rfl⟩

theorem turn_of_cooling {w : World σ} {s : σ} {left : Duration}
    (h : (w.cooldown (w.random s).2).remaining? (w.now (w.random s).2) = some left) (c : Call)
    (decode : Decoder α) (made : Nat) :
    c.turn w decode made s =
      .refused (.explicitBackoff c.request.site left made) (w.random s).2 :=
  (turn_refused_iff ..).mpr ⟨(gate_refused_iff ..).mpr (Or.inl ⟨left, h, rfl⟩), rfl⟩

/-- A call is refused before an attempt exactly if the window of the 429 that was recorded last has
not ended by then. It returns how much of the window is left and how many attempts it has made; it
makes none and changes nothing that the calls share. -/
theorem backoff_iff_cooling {w : World σ} {traffic : σ → Traffic} (hw : w.Shares traffic) {c : Call}
    {decode : Decoder α} {s₀ s : σ} {made : Nat} (hs : c.Reaches w decode s₀ made s)
    {history : List Observation}
    (hh : (traffic s).cooldown = .after c.client.cooldownWindow history) :
    let now := w.now (w.random s).2
    let window := c.client.cooldownWindow
    ((∃ error s', c.turn w decode made s = .refused error s' ∧ error.isExplicitBackoff = true) ↔
        ∃ o, history.getLast? = some o ∧ now < o.endsAt window) ∧
      ∀ o, history.getLast? = some o → now < o.endsAt window →
        ∃ left : Duration, 0 < left.nanos ∧
          (now.OnClock → (o.endsAt window).OnClock → now.after left = o.endsAt window) ∧
          (o.observedAt ≤ now → now.after left = o.endsAt window ∧
            left.nanos ≤ 24 * 60 * 60 * 1000000000) ∧
          traffic (w.random s).2 = traffic s ∧
          ∃ log : List Trial, log.length = made ∧ ∀ fuel, ∃ journal,
            c.run w.logged decode (made + (fuel + 1)) 0 (s₀, []) =
              some (⟨.error (.explicitBackoff c.request.site left made), journal⟩,
                (w.random s).2, log) := by
  intro now window
  have hcooldown : w.cooldown (w.random s).2 = .after window history := by
    rw [hw.cooldown, hw.random, hh]
  refine ⟨?_, ?_⟩
  · rw [turn_backoff_iff, hcooldown]
    simp only [Cooldown.remaining?_after_iff]
    constructor
    · rintro ⟨left, o, ho, hlt, -⟩
      exact ⟨o, ho, hlt⟩
    · rintro ⟨o, ho, hlt⟩
      exact ⟨_, o, ho, hlt, rfl⟩
  · intro o ho hlt
    have hleft := (Cooldown.remaining?_after_iff window history now _).mpr ⟨o, ho, hlt, rfl⟩
    have hwindow := o.nanos_window_le window
    have hend : (o.endsAt window).nanos = o.observedAt.nanos + (o.window window).nanos := rfl
    refine ⟨(o.endsAt window).since now, Instant.since_pos hlt, ?_, ?_, hw.random s, ?_⟩
    · intro hnow hend
      exact Instant.after_since (Instant.le_of_lt hlt) (Instant.sub_le_of_onClock hend hnow)
    · intro hle
      rw [Instant.le_iff] at hle
      have hafter : now.after ((o.endsAt window).since now) = o.endsAt window := by
        apply Instant.after_since (Instant.le_of_lt hlt)
        rw [Duration.maxNanos]
        omega
      have hnanos := congrArg Instant.nanos hafter
      rw [Instant.nanos_after] at hnanos
      exact ⟨hafter, by omega⟩
    · obtain ⟨log, hlen, hrun⟩ := hs.run_eq
      refine ⟨log, hlen, fun fuel => ?_⟩
      rw [← hcooldown] at hleft
      have hturn : c.turn w.logged decode made (s, log) =
          .refused (.explicitBackoff c.request.site ((o.endsAt window).since now) made)
            ((w.random s).2, log) := by
        rw [turn_logged, turn_of_cooling hleft]
        rfl
      have hrun := hrun (fuel + 1)
      rw [run_succ, hturn] at hrun
      obtain ⟨⟨⟨result, journal⟩, t⟩, hsome, heq⟩ := Option.map_eq_some_iff.mp hrun
      cases heq
      exact ⟨journal, hsome⟩

/-- The first attempt gets a 503 after 100 ms, and after 600 ms another call of the client gets a
429. The second attempt would begin 1.1 s after the start. -/
theorem backoff_iff_cooling_of_other :
    let cooldown (t : Instant) : Cooldown :=
      .after Cooldown.standardWindow (if t < ⟨600000000⟩ then [] else [.minute])
    let w := Script.recovering.world cooldown
    let c := Call.plain Settings.patient.plainClient
    ∃ s : Script.Moment, c.Reaches w Decoder.ignore .origin 1 s ∧
      cooldown s.now = .after c.client.cooldownWindow [.minute] ∧
      (⟨1100000000⟩ : Instant) < Observation.minute.endsAt c.client.cooldownWindow ∧
      (∃ error s', c.turn w Decoder.ignore 1 s = .refused error s' ∧
        error.isExplicitBackoff = true) ∧
      ∃ left : Duration, left.nanos = 59500000000 ∧ ∃ log : List Trial, log.length = 1 ∧
        ∃ journal, c.run w.logged Decoder.ignore 2 0 (.origin, []) =
          some (⟨.error (.explicitBackoff c.request.site left 1), journal⟩, (w.random s).2,
            log) := by
  intro cooldown w c
  let traffic (m : Script.Moment) : Traffic := { Traffic.quiet (.ofWindow .zero) 1 with
    cooldown := cooldown m.now }
  have hw : w.Shares traffic := ⟨fun _ => rfl, fun _ => rfl⟩
  have hs : c.Reaches w Decoder.ignore .origin 1 ⟨⟨1100000000⟩, 2⟩ := by
    have hnext : (match c.turn w Decoder.ignore 0 .origin with
        | .again _ _ s => some s
        | _ => none) = some ⟨⟨1100000000⟩, 2⟩ := by decide
    cases hturn : c.turn w Decoder.ignore 0 .origin with
    | again round journal s =>
      rw [hturn] at hnext
      exact Option.some.inj hnext ▸ .again .start hturn
    | _ => rw [hturn] at hnext; cases hnext
  have hend : Observation.minute.endsAt c.client.cooldownWindow = ⟨60600000000⟩ := by decide
  have hlt : (⟨1100000000⟩ : Instant) < Observation.minute.endsAt c.client.cooldownWindow := by
    decide
  have hh : (traffic ⟨⟨1100000000⟩, 2⟩).cooldown = .after c.client.cooldownWindow [.minute] := rfl
  obtain ⟨hiff, hbackoff⟩ := backoff_iff_cooling hw hs hh
  obtain ⟨left, -, -, hle, -, log, hlen, hrun⟩ := hbackoff _ rfl hlt
  obtain ⟨journal, hrun⟩ := hrun 0
  have hafter : (⟨1100000000⟩ : Instant).after left = ⟨60600000000⟩ :=
    (hle (by decide)).1.trans hend
  have hnanos : (1100000000 : Int) + left.nanos = 60600000000 := congrArg Instant.nanos hafter
  exact ⟨_, hs, rfl, hlt, hiff.mpr ⟨_, rfl, hlt⟩, left, by omega, log, hlen, journal, hrun⟩

end Call

end ServiceCall
