import ServiceCall.Number.Binary64
import Mathlib.Algebra.Group.Nat.Defs

/-!
# Whole numbers in floating point

A significand has 53 bits, so a whole number of no more bits is kept as it is.
-/

namespace ServiceCall.Binary64

/-- The number is exactly `n`. -/
def IsWhole (x : Binary64) (n : Nat) : Prop :=
  x.isNegative = false ∧ steps x.magnitude = n * unit

theorem roundHalfEven_mul (q : Nat) {den : Nat} (h : 0 < den) :
    roundHalfEven (q * den) den = q := by
  simp [roundHalfEven, Nat.mul_div_cancel q h, h]

theorem leadingBit_eq : leadingBit = 2 ^ 52 := by decide

theorem infinite_eq : infinite = 2047 * leadingBit := by decide

theorem signBit_eq : signBit = 2048 * leadingBit := by decide

/-- The exponent stays a name, so that the power is not computed. -/
theorem exists_unit : ∃ e, e = 1074 ∧ unit = 2 ^ e := by
  obtain ⟨e, he⟩ : ∃ e, e = 1074 := ⟨1074, rfl⟩
  refine ⟨e, he, ?_⟩
  unfold unit
  rw [← he, Nat.shiftLeft_eq, Nat.one_mul]

theorem log2_mul_two_pow {n : Nat} (hne : n ≠ 0) (e : Nat) :
    (n * 2 ^ e).log2 = n.log2 + e := by
  have hpos := Nat.two_pow_pos e
  refine (Nat.log2_eq_iff (Nat.mul_ne_zero hne (Nat.ne_of_gt hpos))).mpr ⟨?_, ?_⟩
  · rw [Nat.pow_add]
    exact Nat.mul_le_mul_right _ (Nat.log2_self_le hne)
  · rw [Nat.add_right_comm, Nat.pow_add]
    exact Nat.mul_lt_mul_of_pos_right Nat.lt_log2_self hpos

/-- Doubled until its top bit is the one of weight `2 ^ top`. -/
theorem doubled_bounds {n top : Nat} (hne : n ≠ 0) (h : n.log2 ≤ top) :
    2 ^ top ≤ n * 2 ^ (top - n.log2) ∧ n * 2 ^ (top - n.log2) < 2 ^ (top + 1) := by
  have htop : n.log2 + (top - n.log2) = top := by omega
  have htop' : n.log2 + 1 + (top - n.log2) = top + 1 := by omega
  constructor
  · calc 2 ^ top = 2 ^ n.log2 * 2 ^ (top - n.log2) := by rw [← Nat.pow_add, htop]
      _ ≤ n * 2 ^ (top - n.log2) := Nat.mul_le_mul_right _ (Nat.log2_self_le hne)
  · calc n * 2 ^ (top - n.log2) < 2 ^ (n.log2 + 1) * 2 ^ (top - n.log2) :=
          Nat.mul_lt_mul_of_pos_right Nat.lt_log2_self (Nat.two_pow_pos _)
      _ = 2 ^ (top + 1) := by rw [← Nat.pow_add, htop']

/-- A significand that fills its bits, behind so many doublings. -/
theorem steps_normal (doublings : Nat) {q : Nat} (hq : leadingBit ≤ q) (hq' : q < 2 * leadingBit) :
    steps (doublings * leadingBit + q) = q * 2 ^ doublings := by
  have hexponent : (doublings * leadingBit + q) / leadingBit = doublings + 1 := by
    rw [leadingBit_eq] at *
    omega
  have hfraction : (doublings * leadingBit + q) % leadingBit = q - leadingBit := by
    rw [leadingBit_eq] at *
    omega
  unfold steps
  simp only [hexponent, hfraction, Nat.add_one_ne_zero, if_false, Nat.add_sub_cancel,
    Nat.shiftLeft_eq, Nat.add_sub_cancel' hq]

/-- The significand of a number of at most 53 bits takes the bits as they are. -/
theorem nearest_whole {n : Nat} (hne : n ≠ 0) (h : n < 2 ^ 53) :
    ∃ doublings q, nearest n 1 = doublings * leadingBit + q ∧ doublings ≤ 1074 ∧
      leadingBit ≤ q ∧ q < 2 * leadingBit ∧ q * 2 ^ doublings = n * unit := by
  obtain ⟨e, he, hunit⟩ := exists_unit
  have hlog : n.log2 < 53 := (Nat.log2_lt hne).mpr h
  obtain ⟨hq, hq'⟩ := doubled_bounds hne (Nat.le_of_lt_succ hlog)
  rw [Nat.pow_succ'] at hq'
  rw [← leadingBit_eq] at hq hq'
  have hexponent : 52 - n.log2 + (n.log2 + 1022) = e := by omega
  have hexact : n * 2 ^ (52 - n.log2) * 2 ^ (n.log2 + 1022) = n * 2 ^ e := by
    rw [Nat.mul_assoc, ← Nat.pow_add, hexponent]
  have hdoublings : (n * unit / 1).log2 - 52 = n.log2 + 1022 := by
    rw [Nat.div_one, hunit, log2_mul_two_pow hne]
    omega
  refine ⟨n.log2 + 1022, n * 2 ^ (52 - n.log2), ?_, by omega, hq, hq', by rw [hexact, hunit]⟩
  unfold nearest
  simp only [hdoublings, Nat.shiftLeft_eq, Nat.one_mul]
  rw [hunit, ← hexact, roundHalfEven_mul _ (Nat.two_pow_pos _)]
  apply Nat.min_eq_left
  rw [infinite_eq]
  have hmul := Nat.mul_le_mul_right leadingBit (show n.log2 + 1022 ≤ 1074 by omega)
  omega

theorem magnitude_ofMagnitude {m : Nat} (h : m < signBit) :
    (ofMagnitude false m).magnitude = m ∧ (ofMagnitude false m).isNegative = false := by
  have hbits : (ofMagnitude false m).bits.toNat = m := by
    simp only [ofMagnitude, Bool.false_eq_true, if_false, Nat.add_zero, UInt64.toNat_ofNat']
    apply Nat.mod_eq_of_lt
    rw [signBit_eq, leadingBit_eq] at h
    omega
  simp [magnitude, isNegative, hbits, Nat.mod_eq_of_lt h, h]

theorem isWhole_ofInt {n : Nat} (h : n < 2 ^ 53) : (ofInt n).IsWhole n := by
  have hof : ofInt n = ofMagnitude false (nearest n 1) := by
    have hnonneg : ¬ (n : Int) < 0 := by omega
    simp [ofInt, ofFraction, hnonneg]
  by_cases hne : n = 0
  · subst hne
    have hnearest : nearest 0 1 = 0 := by simp [nearest, roundHalfEven]
    obtain ⟨hmagnitude, hnegative⟩ := magnitude_ofMagnitude (show 0 < signBit by decide)
    rw [hof, hnearest]
    exact ⟨hnegative, by simp [hmagnitude, steps]⟩
  · obtain ⟨doublings, q, hnearest, hle, hq, hq', hexact⟩ := nearest_whole hne h
    have hlt : doublings * leadingBit + q < signBit := by
      rw [signBit_eq]
      have hmul := Nat.mul_le_mul_right leadingBit hle
      omega
    obtain ⟨hmagnitude, hnegative⟩ := magnitude_ofMagnitude hlt
    rw [hof, hnearest]
    exact ⟨hnegative, by rw [hmagnitude, steps_normal doublings hq hq', hexact]⟩

end ServiceCall.Binary64
