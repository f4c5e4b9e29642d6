import ServiceCall.Retry.Schedule
import Mathlib.Algebra.Order.Group.Nat
import Mathlib.Data.Option.Basic

/-!
# Waits between attempts

The waits of a schedule never get shorter, and once there is none there is none for any later
attempt. An exponential schedule doubles its wait 31 times. Where so many doublings reach the cap,
the wait is the one of doubling without end; a short first wait under a high cap stops growing
before it gets there.
-/

namespace ServiceCall.Schedule

variable {s : Schedule} {first cap d d' : Duration} {limit : Option Nat} {jitter : Bool}
  {draw draw' : Draw} {a c k m n n' : Nat}

/-! ## With and without jitter -/

theorem delay?_of_no_jitter (h : s.hasJitter = false) (draw : Draw) (n : Nat) :
    s.delay? draw n = s.fullDelay? n := by
  simp [delay?, h]

theorem delay?_eq_none_iff : s.delay? draw n = none ↔ s.fullDelay? n = none := Option.map_eq_none_iff

/-- A draw takes something off a wait and adds nothing. -/
theorem jittered_le (draw : Draw) (d : Duration) : jittered draw d ≤ d := by
  have hdraw : drawSteps + draw.val ≤ 2 * drawSteps := by omega
  have hparts : d.nanos * (drawSteps + draw.val) / (2 * drawSteps) ≤ d.nanos := by
    apply Nat.div_le_of_le_mul
    rw [Nat.mul_comm (2 * drawSteps)]
    exact Nat.mul_le_mul_left d.nanos hdraw
  exact Nat.le_trans (Nat.min_le_left _ _) hparts

theorem exists_fullDelay?_of_delay? (h : s.delay? draw n = some d) :
    ∃ full, s.fullDelay? n = some full ∧ d ≤ full := by
  obtain ⟨full, hfull, rfl⟩ := Option.map_eq_some_iff.mp h
  refine ⟨full, hfull, ?_⟩
  split
  · exact jittered_le draw full
  · exact Nat.le_refl _

/-! ## Doubling -/

/-- The wait after attempt `n` in nanoseconds if the first one is doubled for every further
attempt, however large the product. -/
def endlessNanos (first cap : Duration) (n : Nat) : Nat := min (first.nanos * 2 ^ (n - 1)) cap.nanos

/-- A product that is too long for a span is above any cap. -/
theorem nanos_min_times (k : Nat) (first cap : Duration) :
    (min (first.times k) cap).nanos = min (first.nanos * k) cap.nanos := by
  have hcap : min Duration.maxNanos cap.nanos = cap.nanos := Nat.min_eq_right cap.nanos_le
  rw [Duration.nanos_min, Duration.nanos_times, Nat.mul_comm]
  change min (min (first.nanos * k) Duration.maxNanos) cap.nanos = _
  rw [Nat.min_assoc, hcap]

theorem fullDelay?_exponential (first cap : Duration) (limit : Option Nat) (jitter : Bool)
    (n : Nat) : fullDelay? (.exponential first cap limit jitter) n =
      if ∃ m, limit = some m ∧ m < n then none
      else some (min (first.times (2 ^ min (n - 1) maxDoublings)) cap) := by
  cases limit <;> simp [fullDelay?, Nat.one_shiftLeft]

/-- Doublings that are left out matter exactly where there are some, the wait is not zero and the
other ones leave it below the cap. -/
theorem min_doubled_eq_iff :
    min (a * 2 ^ min k m) c = min (a * 2 ^ k) c ↔ k ≤ m ∨ a = 0 ∨ c ≤ a * 2 ^ m := by
  rcases Nat.lt_or_ge m k with hlt | hle
  · rw [Nat.min_eq_right (Nat.le_of_lt hlt)]
    have hpow : 2 ^ m < 2 ^ k := Nat.pow_lt_pow_right (by omega) hlt
    rcases Nat.eq_zero_or_pos a with rfl | hpos
    · simp
    · have hgrows : a * 2 ^ m < a * 2 ^ k := Nat.mul_lt_mul_of_pos_left hpow hpos
      omega
  · rw [Nat.min_eq_left hle]
    simp [hle]

theorem doubled_le_doubled (hle : k ≤ m) : a * 2 ^ k ≤ a * 2 ^ m :=
  Nat.mul_le_mul_left a (Nat.pow_le_pow_right (by omega) hle)

/-- An exponential wait is the first one doubled for every further attempt, but no more than 31
times, under the cap. It is the wait of endless doubling exactly if there were no more doublings to
make, if they would make nothing of a zero wait, or if 31 of them reach the cap; otherwise it is
shorter. -/
theorem exponential_wait (hn : ∀ m, limit = some m → n ≤ m) (draw : Draw) :
    ∃ d, delay? (.exponential first cap limit false) draw n = some d ∧
      d.nanos = min (first.nanos * 2 ^ min (n - 1) 31) cap.nanos ∧
      (d.nanos = endlessNanos first cap n ↔
        n ≤ 32 ∨ first.nanos = 0 ∨ cap.nanos ≤ first.nanos * 2 ^ 31) ∧
      d.nanos ≤ endlessNanos first cap n := by
  have hallowed : ¬ ∃ m, limit = some m ∧ m < n := by
    rintro ⟨m, hm, hlt⟩
    exact absurd (hn m hm) (Nat.not_le.mpr hlt)
  have hdelay : delay? (.exponential first cap limit false) draw n =
      some (min (first.times (2 ^ min (n - 1) maxDoublings)) cap) := by
    rw [delay?_of_no_jitter rfl, fullDelay?_exponential, if_neg hallowed]
  have hcount : n ≤ 32 ↔ n - 1 ≤ 31 := by omega
  refine ⟨_, hdelay, nanos_min_times .., ?_, ?_⟩
  · rw [nanos_min_times, hcount]
    exact min_doubled_eq_iff
  · rw [nanos_min_times]
    have hgrows : first.nanos * 2 ^ min (n - 1) 31 ≤ first.nanos * 2 ^ (n - 1) :=
      doubled_le_doubled (Nat.min_le_left _ _)
    unfold endlessNanos maxDoublings
    omega

/-- Ten doublings from 100 ms are cut at the cap of a second, as those without an end are. -/
theorem exponential_wait_of_tenth :
    (∀ m, some 20 = some m → 11 ≤ m) ∧
      ∃ d, delay? (.exponential (.ofMillis 100) (.ofSecs 1) (some 20) false) 0 11 = some d ∧
        d.nanos = 10 ^ 9 ∧ d.nanos = endlessNanos (.ofMillis 100) (.ofSecs 1) 11 := by
  have hlimit : ∀ m, some 20 = some m → 11 ≤ m := by
    rintro m ⟨⟩
    decide
  obtain ⟨d, hdelay, hnanos, hendless, -⟩ := exponential_wait hlimit 0
  exact ⟨hlimit, d, hdelay, hnanos.trans (by decide), hendless.mpr (Or.inl (by decide))⟩

/-- A wait of a nanosecond stops growing at 2.147483648 s, although the cap is 5 s. -/
theorem doubling_stops_below_cap :
    ∃ d, delay? (.exponential ⟨1, by decide⟩ (.ofSecs 5) none false) 0 34 = some d ∧
      d.nanos = 2 ^ 31 ∧ endlessNanos ⟨1, by decide⟩ (.ofSecs 5) 34 = 5 * 10 ^ 9 :=
  ⟨_, rfl, by decide, by decide⟩

/-! ## Giving up -/

/-- One of the schedules that are given by numbers. -/
def IsBuiltIn : Schedule → Prop
  | .custom _ => False
  | _ => True

/-- The waits end where the limit says that they do. -/
theorem fullDelay?_eq_none_iff (hs : s.IsBuiltIn) (hn : 0 < n) :
    s.fullDelay? n = none ↔ ∃ m, s.limit? = some m ∧ m < n := by
  cases s with
  | never => simpa [fullDelay?, limit?] using hn
  | exponential first cap limit jitter =>
    rw [fullDelay?_exponential]
    simp [limit?]
  | steady wait limit => simp [fullDelay?, limit?]
  | custom wait? => exact hs.elim

theorem isBuiltIn_of_limit? (h : s.limit? = some m) : s.IsBuiltIn := by
  cases s with
  | custom wait? => cases h
  | _ => trivial

theorem delay?_isSome_iff (h : s.limit? = some m) (draw : Draw) (hn : 0 < n) :
    (s.delay? draw n).isSome = true ↔ n ≤ m := by
  rw [Option.isSome_iff_ne_none, ne_eq, delay?_eq_none_iff,
    fullDelay?_eq_none_iff (isBuiltIn_of_limit? h) hn, h]
  simp

theorem fullDelay?_mono (hs : s.IsBuiltIn) (hle : n ≤ n') (h : s.fullDelay? n = some d)
    (h' : s.fullDelay? n' = some d') : d ≤ d' := by
  cases s with
  | never => cases h
  | exponential first cap limit jitter =>
    rw [fullDelay?_exponential] at h h'
    split at h
    · cases h
    · split at h'
      · cases h'
      · cases h
        cases h'
        have hcount : min (n - 1) maxDoublings ≤ min (n' - 1) maxDoublings := by omega
        have hgrows := doubled_le_doubled hcount (a := first.nanos)
        rw [Duration.le_iff, nanos_min_times, nanos_min_times]
        omega
  | steady wait limit =>
    simp only [fullDelay?, Option.ite_none_right_eq_some, Option.some.injEq] at h h'
    rw [← h.2, ← h'.2]
    exact Nat.le_refl _
  | custom wait? => exact hs.elim

theorem exponential_le_cap (h : delay? (.exponential first cap limit jitter) draw n = some d) :
    d ≤ cap := by
  obtain ⟨full, hfull, hle⟩ := exists_fullDelay?_of_delay? h
  rw [fullDelay?_exponential] at hfull
  split at hfull
  · cases hfull
  · cases hfull
    rw [Duration.le_iff, nanos_min_times] at hle
    exact Nat.le_trans hle (Nat.min_le_right _ _)

/-- A schedule without a rule of its own gives up exactly behind its limit and does so for good,
its waits never get shorter unless a draw makes them so, and an exponential wait, drawn or not, is
never longer than the cap. -/
theorem waits_monotone (hs : s.IsBuiltIn) (hn : 1 ≤ n) (hle : n ≤ n') (draw draw' : Draw) :
    (s.delay? draw n = none → s.delay? draw' n' = none) ∧
      (s.hasJitter = false → ∀ d d', s.delay? draw n = some d → s.delay? draw' n' = some d' →
        d ≤ d') ∧
      (∀ first cap limit jitter, s = .exponential first cap limit jitter →
        ∀ d, s.delay? draw n = some d → d ≤ cap) ∧
      (s.delay? draw n = none ↔ ∃ m, s.limit? = some m ∧ m < n) := by
  refine ⟨?_, ?_, ?_, ?_⟩
  · rw [delay?_eq_none_iff, delay?_eq_none_iff, fullDelay?_eq_none_iff hs hn,
      fullDelay?_eq_none_iff hs (Nat.le_trans hn hle)]
    rintro ⟨m, hm, hlt⟩
    exact ⟨m, hm, Nat.lt_of_lt_of_le hlt hle⟩
  · intro hj d d' h h'
    rw [delay?_of_no_jitter hj] at h h'
    exact fullDelay?_mono hs hle h h'
  · rintro first cap limit jitter rfl d h
    exact exponential_le_cap h
  · rw [delay?_eq_none_iff]
    exact fullDelay?_eq_none_iff hs hn

/-- Two doublings of 2 ^ 63 seconds are too long for a span, and the third retry is the last. -/
theorem waits_monotone_of_longest :
    let s : Schedule := .exponential (.ofSecs (2 ^ 63)) .max (some 3) false
    s.IsBuiltIn ∧ (∃ d d', s.delay? 0 1 = some d ∧ s.delay? 0 3 = some d' ∧ d ≤ d' ∧ d' ≤ .max) ∧
      s.delay? 0 4 = none ∧ s.delay? 0 7 = none := by
  intro s
  have hs : s.IsBuiltIn := trivial
  obtain ⟨-, hmono, -, -⟩ := waits_monotone hs (by decide : 1 ≤ 1) (by decide : 1 ≤ 3) 0 0
  obtain ⟨-, -, hcap, -⟩ := waits_monotone hs (by decide : 1 ≤ 3) (by decide : 3 ≤ 3) 0 0
  obtain ⟨hnever, -, -, hlimit⟩ := waits_monotone hs (by decide : 1 ≤ 4) (by decide : 4 ≤ 7) 0 0
  have hlast : s.delay? 0 4 = none := hlimit.mpr ⟨3, rfl, by decide⟩
  exact ⟨hs, ⟨_, _, rfl, rfl, hmono rfl _ _ rfl rfl, hcap _ _ _ _ rfl _ rfl⟩, hlast, hnever hlast⟩

end ServiceCall.Schedule
