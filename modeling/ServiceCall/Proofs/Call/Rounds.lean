import ServiceCall.Proofs.Call.Decisions

/-!
# The rounds of a run

A run goes through rounds: a check, an attempt, the reaction to its ending, and a wait if another
attempt is to follow. `turn` is one round of `run`, and `rounds` lists those of a whole run, also
of one that never ends.
-/

namespace ServiceCall

variable {σ α : Type}

structure Trial where
  attempt : Attempt
  begunAt : Instant
  ending : Ending
  endedAt : Instant

structure Round extends Trial where
  wait? : Option Duration

inductive Turn (σ α : Type) where
  | refused (error : CallError) (s : σ)
  | ended (round : Round) (result : Except CallError (Response α)) (journal : Journal) (s : σ)
  | again (round : Round) (journal : Journal) (s : σ)

namespace Call

/-! ## One turn -/

def candidate (w : World σ) (c : Call) (made : Nat) (s : σ) : Attempt :=
  c.nextAttempt made (w.now (w.random s).2) (.ofSpanDraw (w.random s).1)

def attemptState (w : World σ) (c : Call) (a : Attempt) (s : σ) : σ :=
  (w.attempt c a (w.random s).2).2

def reactionState (w : World σ) (c : Call) (a : Attempt) (s : σ) : σ :=
  (w.random (c.attemptState w a s)).2

def roundOf (w : World σ) (c : Call) (a : Attempt) (s : σ) (wait? : Option Duration) : Round where
  attempt := a
  begunAt := w.now (w.random s).2
  ending := (w.attempt c a (w.random s).2).1
  endedAt := w.now (c.attemptState w a s)
  wait?

def reaction (w : World σ) (c : Call) (decode : Decoder α) (a : Attempt) (s : σ) :
    Next α × Journal :=
  c.react decode a (w.attempt c a (w.random s).2).1 (w.now (c.reactionState w a s))
    (.ofNat (w.random (c.attemptState w a s)).1)

def turn (w : World σ) (c : Call) (decode : Decoder α) (made : Nat) (s : σ) : Turn σ α :=
  match c.gate (w.cooldown (w.random s).2) made (w.now (w.random s).2)
    (.ofSpanDraw (w.random s).1) with
  | .refused error => .refused error (w.random s).2
  | .admitted a =>
    match c.reaction w decode a s with
    | (.ended result, journal) =>
      .ended (c.roundOf w a s none) result journal (c.reactionState w a s)
    | (.again delay, journal) =>
      .again (c.roundOf w a s (some delay)) journal (w.sleep delay (c.reactionState w a s))

/-- The round is an attempt that is made from `s` after `made` others. -/
structure Makes (w : World σ) (c : Call) (made : Nat) (s : σ) (round : Round) : Prop where
  cool : (w.cooldown (w.random s).2).remaining? (w.now (w.random s).2) = none
  early : ∀ d, c.deadline? = some d → w.now (w.random s).2 < d
  eq_roundOf : round = c.roundOf w (c.candidate w made s) s round.wait?

theorem turn_cases (w : World σ) (c : Call) (decode : Decoder α) (made : Nat) (s : σ) :
    (∃ error span, c.gate (w.cooldown (w.random s).2) made (w.now (w.random s).2) span =
        .refused error ∧ c.turn w decode made s = .refused error (w.random s).2) ∨
      (∃ round result journal, c.Makes w made s round ∧ round.wait? = none ∧
        (c.reaction w decode round.attempt s).1 = .ended result ∧
        c.turn w decode made s =
          .ended round result journal (c.reactionState w round.attempt s)) ∨
      ∃ round delay journal, c.Makes w made s round ∧ round.wait? = some delay ∧
        (c.reaction w decode round.attempt s).1 = .again delay ∧
        c.turn w decode made s =
          .again round journal (w.sleep delay (c.reactionState w round.attempt s)) := by
  unfold turn
  cases hg : c.gate (w.cooldown (w.random s).2) made (w.now (w.random s).2)
    (.ofSpanDraw (w.random s).1) with
  | refused error => exact Or.inl ⟨error, _, hg, rfl⟩
  | admitted a =>
    right
    obtain ⟨hcool, hearly, rfl⟩ := (gate_admitted_iff ..).mp hg
    dsimp only
    cases hr : c.reaction w decode _ s with
    | mk next journal =>
      cases next with
      | ended result =>
        exact Or.inl ⟨_, result, journal, ⟨hcool, hearly, rfl⟩, rfl, congrArg Prod.fst hr, rfl⟩
      | again delay =>
        exact Or.inr ⟨_, delay, journal, ⟨hcool, hearly, rfl⟩, rfl, congrArg Prod.fst hr, rfl⟩

section

variable {w : World σ} {c : Call} {made : Nat} {s : σ} {round : Round}

theorem Makes.number (h : c.Makes w made s round) : round.attempt.number = made + 1 := by
  rw [h.eq_roundOf]; rfl

theorem Makes.budget (h : c.Makes w made s round) : round.attempt.budget = c.budget := by
  rw [h.eq_roundOf]; rfl

theorem Makes.cutoff (h : c.Makes w made s round) :
    round.attempt.cutoff = Instant.earliest (round.begunAt.after? c.budget) c.deadline? := by
  rw [h.eq_roundOf]; rfl

theorem Makes.begunAt (h : c.Makes w made s round) : round.begunAt = w.now (w.random s).2 := by
  rw [h.eq_roundOf]; rfl

theorem Makes.ending (h : c.Makes w made s round) :
    round.ending = (w.attempt c round.attempt (w.random s).2).1 := by
  rw [h.eq_roundOf]; rfl

theorem Makes.endedAt (h : c.Makes w made s round) :
    round.endedAt = w.now (c.attemptState w round.attempt s) := by
  rw [h.eq_roundOf]; rfl

theorem Makes.reaction_eq (h : c.Makes w made s round) (decode : Decoder α) :
    ∃ draw, c.reaction w decode round.attempt s =
      c.react decode round.attempt round.ending (w.now (c.reactionState w round.attempt s))
        draw := by
  rw [h.ending]
  exact ⟨_, rfl⟩

end

/-! ## Whole runs -/

theorem run_succ (w : World σ) (c : Call) (decode : Decoder α) (fuel made : Nat) (s : σ) :
    c.run w decode (fuel + 1) made s =
      match c.turn w decode made s with
      | .refused error s => some (⟨.error error, refusalJournal error⟩, s)
      | .ended _ result journal s => some (⟨result, journal⟩, s)
      | .again _ journal s => (c.run w decode fuel (made + 1) s).map fun (rest, s) =>
          (⟨rest.result, journal ++ rest.journal⟩, s) := by
  rw [run]
  unfold turn
  dsimp only
  cases c.gate (w.cooldown (w.random s).2) made (w.now (w.random s).2)
    (.ofSpanDraw (w.random s).1) with
  | refused error => rfl
  | admitted a =>
    dsimp only [reaction, reactionState, attemptState]
    generalize c.react decode a _ _ _ = reaction
    obtain ⟨next, journal⟩ := reaction
    cases next <;> rfl

/-- The rounds of a run after `made` others, at most `fuel` of them. -/
def rounds (w : World σ) (c : Call) (decode : Decoder α) : (fuel made : Nat) → σ → List Round
  | 0, _, _ => []
  | fuel + 1, made, s =>
    match c.turn w decode made s with
    | .refused .. => []
    | .ended round .. => [round]
    | .again round _ s => round :: c.rounds w decode fuel (made + 1) s

/-- How a run goes on after `made` attempts: through these rounds, and to this end if it has
one. -/
inductive Goes (w : World σ) (c : Call) (decode : Decoder α) :
    (fuel made : Nat) → σ → List Round → Option (CallEnd α × σ) → Prop
  | spent {made s} : Goes w c decode 0 made s [] none
  | refused {fuel made s error span}
      (hg : c.gate (w.cooldown (w.random s).2) made (w.now (w.random s).2) span = .refused error) :
      Goes w c decode (fuel + 1) made s []
        (some (⟨.error error, refusalJournal error⟩, (w.random s).2))
  | ended {fuel made s round result} (journal) (hm : c.Makes w made s round)
      (hwait : round.wait? = none) (hr : (c.reaction w decode round.attempt s).1 = .ended result) :
      Goes w c decode (fuel + 1) made s [round]
        (some (⟨result, journal⟩, c.reactionState w round.attempt s))
  | again {fuel made s round delay rounds end?} (journal : Journal) (hm : c.Makes w made s round)
      (hwait : round.wait? = some delay)
      (hr : (c.reaction w decode round.attempt s).1 = .again delay)
      (hrest : Goes w c decode fuel (made + 1)
        (w.sleep delay (c.reactionState w round.attempt s)) rounds end?) :
      Goes w c decode (fuel + 1) made s (round :: rounds)
        (end?.map fun (rest, s) => (⟨rest.result, journal ++ rest.journal⟩, s))

theorem goes (w : World σ) (c : Call) (decode : Decoder α) (fuel made : Nat) (s : σ) :
    c.Goes w decode fuel made s (c.rounds w decode fuel made s)
      (c.run w decode fuel made s) := by
  induction fuel generalizing made s with
  | zero => exact .spent
  | succ fuel ih =>
    rw [run_succ, rounds]
    rcases c.turn_cases w decode made s with ⟨error, span, hg, ht⟩ |
      ⟨round, result, journal, hm, hwait, hr, ht⟩ | ⟨round, delay, journal, hm, hwait, hr, ht⟩
    · rw [ht]; exact .refused hg
    · rw [ht]; exact .ended journal hm hwait hr
    · rw [ht]; exact .again journal hm hwait hr (ih ..)

theorem Goes.exists_makes_of_mem {w : World σ} {c : Call} {decode : Decoder α} {fuel made : Nat}
    {s : σ} {rounds : List Round} {end? : Option (CallEnd α × σ)}
    (h : c.Goes w decode fuel made s rounds end?) {round : Round} (hround : round ∈ rounds) :
    ∃ made' s', c.Makes w made' s' round ∧
      ∀ delay, round.wait? = some delay →
        (c.reaction w decode round.attempt s').1 = .again delay := by
  induction h with
  | spent => cases hround
  | refused hg => cases hround
  | @ended _ made s _ _ journal hm hwait hr =>
    rw [List.mem_singleton] at hround
    subst hround
    refine ⟨made, s, hm, ?_⟩
    intro delay hdelay
    rw [hwait] at hdelay
    cases hdelay
  | @again _ made s _ _ _ _ journal hm hwait hr hrest ih =>
    rcases List.mem_cons.mp hround with rfl | hround
    · refine ⟨made, s, hm, ?_⟩
      intro delay hdelay
      rw [hwait] at hdelay
      cases hdelay
      exact hr
    · exact ih hround

end Call

/-! ## Keeping a log -/

/-- A world that also writes down the attempts that are made in it. -/
def World.logged (w : World σ) : World (σ × List Trial) where
  now s := w.now s.1
  cooldown s := w.cooldown s.1
  random s := ((w.random s.1).1, (w.random s.1).2, s.2)
  attempt c a s :=
    let (ending, t) := w.attempt c a s.1
    (ending, t, s.2 ++ [⟨a, w.now s.1, ending, w.now t⟩])
  sleep d s := (w.sleep d s.1, s.2)

def Turn.logged (log : List Trial) : Turn σ α → Turn (σ × List Trial) α
  | .refused error s => .refused error (s, log)
  | .ended round result journal s => .ended round result journal (s, log ++ [round.toTrial])
  | .again round journal s => .again round journal (s, log ++ [round.toTrial])

namespace Call

theorem turn_logged (w : World σ) (c : Call) (decode : Decoder α) (made : Nat) (s : σ)
    (log : List Trial) :
    c.turn w.logged decode made (s, log) = (c.turn w decode made s).logged log := by
  unfold turn
  dsimp only [World.logged]
  cases c.gate (w.cooldown (w.random s).2) made (w.now (w.random s).2)
    (.ofSpanDraw (w.random s).1) with
  | refused error => rfl
  | admitted a =>
    have hr : c.reaction w.logged decode a (s, log) = c.reaction w decode a s := rfl
    dsimp only [World.logged] at hr ⊢
    rw [hr]
    generalize c.reaction w decode a s = reaction
    obtain ⟨next, journal⟩ := reaction
    cases next <;> rfl

/-- A log does not change a run, and what it holds in the end are the rounds of the run. -/
theorem run_logged (w : World σ) (c : Call) (decode : Decoder α) (fuel made : Nat) (s : σ)
    (log : List Trial) :
    c.run w.logged decode fuel made (s, log) =
      (c.run w decode fuel made s).map fun (e, s') =>
        (e, s', log ++ (c.rounds w decode fuel made s).map Round.toTrial) := by
  induction fuel generalizing made s log with
  | zero => rfl
  | succ fuel ih =>
    rw [run_succ, run_succ, turn_logged, rounds]
    cases c.turn w decode made s with
    | refused error s' => simp [Turn.logged]
    | ended round result journal s' => simp [Turn.logged]
    | again round journal s' =>
      simp only [Turn.logged, ih, List.map_cons, Option.map_map]
      congr 1
      funext p
      simp

/-- The attempts of a run after `made` others, also of one that never ends. -/
def trials (w : World σ) (c : Call) (decode : Decoder α) (fuel made : Nat) (s : σ) : List Trial :=
  (c.rounds w decode fuel made s).map Round.toTrial

theorem run_trials (w : World σ) (c : Call) (decode : Decoder α) (fuel : Nat) (s : σ) :
    c.run w.logged decode fuel 0 (s, []) =
      (c.run w decode fuel 0 s).map fun (e, s') => (e, s', c.trials w decode fuel 0 s) :=
  c.run_logged w decode fuel 0 s []

theorem exists_makes_of_mem_trials {w : World σ} {c : Call} {decode : Decoder α} {fuel made : Nat}
    {s : σ} {trial : Trial} (h : trial ∈ c.trials w decode fuel made s) :
    ∃ round made' s', round.toTrial = trial ∧ c.Makes w made' s' round := by
  obtain ⟨round, hround, rfl⟩ := List.mem_map.mp h
  obtain ⟨made', s', hmakes, -⟩ := (c.goes w decode fuel made s).exists_makes_of_mem hround
  exact ⟨round, made', s', rfl, hmakes⟩

end Call

end ServiceCall
