import ServiceCall.Text.Blank
import Mathlib.Data.List.Forall2

/-!
# Letters in two cases

Which texts differ in nothing but the case of their ASCII letters: those that are equal in lower
case. No other character has a case here.
-/

namespace ServiceCall.Text

/-- Two equal characters, or one ASCII letter in two cases. -/
def SameLetter (c d : Char) : Prop :=
  c = d ∨ (c.isUpper = true ∧ d.toNat = c.toNat + 32) ∨ (d.isUpper = true ∧ c.toNat = d.toNat + 32)

instance (c d : Char) : Decidable (SameLetter c d) := inferInstanceAs (Decidable (_ ∨ _))

/-- Character by character the same letters. -/
def SameLetters (a b : String) : Prop := List.Forall₂ SameLetter a.toList b.toList

instance (a b : String) : Decidable (SameLetters a b) :=
  inferInstanceAs (Decidable (List.Forall₂ _ _ _))

theorem isUpper_iff (c : Char) : c.isUpper = true ↔ 65 ≤ c.toNat ∧ c.toNat ≤ 90 := by
  unfold Char.isUpper
  simp only [decide_eq_true_eq]
  rfl

theorem toNat_toLower (c : Char) :
    c.toLower.toNat = if c.isUpper = true then c.toNat + 32 else c.toNat := by
  split
  · rename_i hupper
    have hlower : c.toLower.val = c.val + 32 :=
      congrArg Char.val (dif_pos (of_decide_eq_true hupper))
    have hlt : c.val.toNat + 32 < 2 ^ 32 := by
      have hrange := (isUpper_iff c).mp hupper
      have hval : c.val.toNat = c.toNat := rfl
      omega
    calc c.toLower.toNat = (c.val + 32).toNat := congrArg UInt32.toNat hlower
      _ = c.val.toNat + 32 := by rw [UInt32.toNat_add]; exact Nat.mod_eq_of_lt hlt
  · rename_i hupper
    exact congrArg Char.toNat (dif_neg fun h => hupper (decide_eq_true h))

theorem toLower_toLower (c : Char) : c.toLower.toLower = c.toLower := by
  rw [← Char.toNat_inj, toNat_toLower]
  refine if_neg fun hupper => ?_
  have hlower := toNat_toLower c
  simp only [isUpper_iff] at hupper hlower
  split at hlower <;> omega

theorem toNat_toLower_lt {c : Char} (h : c.toNat < 0x80) : c.toLower.toNat < 0x80 := by
  rw [toNat_toLower]
  simp only [isUpper_iff]
  split <;> omega

/-- A capital letter and its small letter are 32 apart, and no letter is both. -/
theorem toLower_eq_toLower_iff (c d : Char) : c.toLower = d.toLower ↔ SameLetter c d := by
  unfold SameLetter
  rw [← Char.toNat_inj, ← Char.toNat_inj, toNat_toLower, toNat_toLower]
  simp only [isUpper_iff]
  split <;> split <;> omega

theorem lower_eq_lower_iff (a b : String) : lower a = lower b ↔ SameLetters a b := by
  unfold lower SameLetters
  rw [String.ofList_inj, ← List.forall₂_eq_eq_eq, List.forall₂_map_left_iff,
    List.forall₂_map_right_iff]
  simp only [toLower_eq_toLower_iff]

end ServiceCall.Text
