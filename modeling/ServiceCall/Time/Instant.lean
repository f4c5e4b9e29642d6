import ServiceCall.Time.Duration

/-!
# Instants

A moment on a clock that never goes back. Its origin has no meaning; only distances and order do.
A sum that the clock cannot hold is no instant.
-/

namespace ServiceCall

/-- A moment, in nanoseconds from an arbitrary origin. -/
structure Instant where
  nanos : Int
  deriving DecidableEq, Repr, Inhabited

namespace Instant

/-- The last moment of a clock with signed 64-bit seconds. -/
def lastNanos : Int := 9223372036854775807 * 1000000000 + 999999999

instance : LE Instant := ⟨fun a b => a.nanos ≤ b.nanos⟩

instance : LT Instant := ⟨fun a b => a.nanos < b.nanos⟩

instance (a b : Instant) : Decidable (a ≤ b) := inferInstanceAs (Decidable (a.nanos ≤ b.nanos))

instance (a b : Instant) : Decidable (a < b) := inferInstanceAs (Decidable (a.nanos < b.nanos))

instance : Min Instant := ⟨fun a b => if a ≤ b then a else b⟩

/-- The moment `d` after `t`, if the clock reaches it. -/
def after? (t : Instant) (d : Duration) : Option Instant :=
  if t.nanos + d.nanos ≤ lastNanos then some ⟨t.nanos + d.nanos⟩ else none

/-- The moment `d` after `t`. -/
def after (t : Instant) (d : Duration) : Instant := ⟨t.nanos + d.nanos⟩

/-- The time from `earlier` to `t`, nothing if `t` is not later. -/
def since (t earlier : Instant) : Duration := Duration.ofNanos (t.nanos - earlier.nanos).toNat

/-- The earlier of two bounds; a missing bound does not constrain. -/
def earliest : Option Instant → Option Instant → Option Instant
  | some a, some b => some (min a b)
  | some a, none => some a
  | none, b => b

@[ext] theorem ext {a b : Instant} (h : a.nanos = b.nanos) : a = b := by
  cases a; cases b; cases h; rfl

theorem le_iff (a b : Instant) : a ≤ b ↔ a.nanos ≤ b.nanos := Iff.rfl

theorem lt_iff (a b : Instant) : a < b ↔ a.nanos < b.nanos := Iff.rfl

theorem not_le (a b : Instant) : ¬ a ≤ b ↔ b < a := by rw [le_iff, lt_iff]; omega

theorem le_of_lt {a b : Instant} (h : a < b) : a ≤ b := Int.le_of_lt h

theorem lt_of_le_of_ne {a b : Instant} (hle : a ≤ b) (hne : a ≠ b) : a < b :=
  Int.lt_iff_le_and_ne.mpr ⟨hle, fun h => hne (ext h)⟩

@[simp] theorem nanos_after (t : Instant) (d : Duration) : (t.after d).nanos = t.nanos + d.nanos :=
  rfl

theorem le_after (t : Instant) (d : Duration) : t ≤ t.after d := by
  rw [le_iff, nanos_after]; omega

/-- A clock with signed 64-bit seconds can show it. -/
def OnClock (t : Instant) : Prop :=
  -9223372036854775808 * 1000000000 ≤ t.nanos ∧ t.nanos ≤ lastNanos

instance (t : Instant) : Decidable t.OnClock := inferInstanceAs (Decidable (_ ∧ _))

theorem sub_le_of_onClock {t earlier : Instant} (ht : t.OnClock) (he : earlier.OnClock) :
    t.nanos - earlier.nanos ≤ Duration.maxNanos := by
  simp only [OnClock, lastNanos, Duration.maxNanos] at *
  omega

/-- The time from one moment to a later one is exact unless it is too long for a span. -/
theorem nanos_since {t earlier : Instant} (hle : earlier ≤ t)
    (hfits : t.nanos - earlier.nanos ≤ Duration.maxNanos) :
    ((t.since earlier).nanos : Int) = t.nanos - earlier.nanos := by
  have hmin : (t.nanos - earlier.nanos).toNat ≤ Duration.maxNanos := by omega
  have hnanos : (t.since earlier).nanos = (t.nanos - earlier.nanos).toNat := Nat.min_eq_left hmin
  rw [le_iff] at hle
  omega

theorem after_since {t earlier : Instant} (hle : earlier ≤ t)
    (hfits : t.nanos - earlier.nanos ≤ Duration.maxNanos) :
    earlier.after (t.since earlier) = t := by
  apply Instant.ext
  rw [nanos_after, nanos_since hle hfits]
  omega

theorem after_since_of_onClock {t earlier : Instant} (hle : earlier ≤ t) (ht : t.OnClock)
    (he : earlier.OnClock) : earlier.after (t.since earlier) = t :=
  after_since hle (sub_le_of_onClock ht he)

theorem nanos_since_le (t earlier : Instant) :
    (t.since earlier).nanos ≤ (t.nanos - earlier.nanos).toNat := Nat.min_le_left _ _

theorem since_le_since {t earlier later : Instant} (hle : earlier ≤ later) :
    t.since later ≤ t.since earlier := by
  rw [le_iff] at hle
  have hlonger : (t.nanos - later.nanos).toNat ≤ (t.nanos - earlier.nanos).toNat := by omega
  exact Nat.le_min.mpr ⟨Nat.le_trans (Nat.min_le_left _ _) hlonger, Nat.min_le_right _ _⟩

theorem since_pos {t earlier : Instant} (hlt : earlier < t) : 0 < (t.since earlier).nanos := by
  rw [lt_iff] at hlt
  have hpos : 0 < (t.nanos - earlier.nanos).toNat := by omega
  exact Nat.lt_min.mpr ⟨hpos, by decide⟩

theorem eq_after_of_after? {t u : Instant} {d : Duration} (h : t.after? d = some u) :
    u = t.after d := by
  unfold after? at h
  split at h <;> cases h
  rfl

theorem min_eq_or (a b : Instant) : min a b = a ∧ a ≤ b ∨ min a b = b ∧ b ≤ a := by
  show (if a ≤ b then a else b) = a ∧ _ ∨ (if a ≤ b then a else b) = b ∧ _
  by_cases h : a ≤ b
  · rw [if_pos h]; exact Or.inl ⟨rfl, h⟩
  · rw [if_neg h]
    rw [le_iff] at h
    exact Or.inr ⟨rfl, by rw [le_iff]; omega⟩

theorem earliest_eq_some_iff {a b : Option Instant} {t : Instant} :
    earliest a b = some t ↔
      (a = some t ∨ b = some t) ∧ ∀ u, a = some u ∨ b = some u → t ≤ u := by
  have refl : ∀ u : Instant, u ≤ u := fun u => Int.le_refl _
  cases a with
  | none =>
    cases b with
    | none => simp [earliest]
    | some b => simpa [earliest] using fun h => h ▸ refl b
  | some a =>
    cases b with
    | none => simpa [earliest] using fun h => h ▸ refl a
    | some b =>
      simp only [earliest, Option.some.injEq]
      rcases min_eq_or a b with ⟨hm, hab⟩ | ⟨hm, hba⟩
      · rw [hm]
        constructor
        · rintro rfl
          refine ⟨Or.inl rfl, ?_⟩
          rintro u (rfl | rfl)
          · exact refl a
          · exact hab
        · rintro ⟨rfl | rfl, hall⟩
          · rfl
          · exact ext (Int.le_antisymm hab (hall a (Or.inl rfl)))
      · rw [hm]
        constructor
        · rintro rfl
          refine ⟨Or.inr rfl, ?_⟩
          rintro u (rfl | rfl)
          · exact hba
          · exact refl b
        · rintro ⟨rfl | rfl, hall⟩
          · exact ext (Int.le_antisymm hba (hall b (Or.inr rfl)))
          · rfl

theorem earliest_eq_none_iff {a b : Option Instant} :
    earliest a b = none ↔ a = none ∧ b = none := by
  cases a <;> cases b <;> simp [earliest]

end Instant

end ServiceCall
