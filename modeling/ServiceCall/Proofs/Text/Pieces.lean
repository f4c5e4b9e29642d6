import ServiceCall.Text.Blank
import Mathlib.Algebra.Group.Nat.Defs
import Mathlib.Data.List.Basic

/-!
# Pieces and numbers

What the cuts of a text leave when it is put together of known parts, and that a number which is
written in digits is read back.
-/

namespace ServiceCall.Text

theorem toNat_ofNat {n : Nat} (h : n < 0xD800) : (Char.ofNat n).toNat = n := by
  have hvalid : n.isValidChar := Or.inl h
  unfold Char.ofNat
  rw [dif_pos hvalid]
  rfl

/-! ## Cuts at a separator -/

section

variable {sep : Char} {xs ys cs piece : List Char}

theorem splitChars_cons_of_ne {c : Char} (h : c ≠ sep) (cs : List Char) :
    ∃ piece pieces, splitChars sep cs = piece :: pieces ∧
      splitChars sep (c :: cs) = (c :: piece) :: pieces := by
  obtain ⟨piece, pieces, heq⟩ := List.exists_cons_of_ne_nil (splitChars_ne_nil sep cs)
  exact ⟨piece, pieces, heq, by simp only [splitChars, if_neg h, heq]⟩

theorem splitChars_cons_self (sep : Char) (cs : List Char) :
    splitChars sep (sep :: cs) = [] :: splitChars sep cs := by
  simp only [splitChars, if_true]

theorem splitChars_of_not_mem (h : sep ∉ cs) : splitChars sep cs = [cs] := by
  induction cs with
  | nil => rfl
  | cons c cs ih =>
    rw [List.mem_cons, not_or] at h
    simp only [splitChars, if_neg (Ne.symm h.1), ih h.2]

theorem splitChars_append_cons (h : sep ∉ xs) (ys : List Char) :
    splitChars sep (xs ++ sep :: ys) = xs :: splitChars sep ys := by
  induction xs with
  | nil => exact splitChars_cons_self sep ys
  | cons c xs ih =>
    rw [List.mem_cons, not_or] at h
    simp only [List.cons_append, splitChars, if_neg (Ne.symm h.1), ih h.2]

theorem splitChars_append (sep : Char) (xs ys : List Char) :
    splitChars sep (xs ++ sep :: ys) = splitChars sep xs ++ splitChars sep ys := by
  induction xs with
  | nil => exact splitChars_cons_self sep ys
  | cons c xs ih =>
    rw [List.cons_append]
    by_cases hc : c = sep
    · subst hc
      rw [splitChars_cons_self, splitChars_cons_self, ih, List.cons_append]
    · obtain ⟨piece, pieces, heq, hcons⟩ := splitChars_cons_of_ne hc xs
      obtain ⟨piece', pieces', heq', hcons'⟩ := splitChars_cons_of_ne hc (xs ++ sep :: ys)
      rw [ih, heq, List.cons_append] at heq'
      obtain ⟨rfl, rfl⟩ := List.cons.inj heq'
      rw [hcons, hcons', List.cons_append]

theorem intercalate_splitChars (sep : Char) (cs : List Char) :
    [sep].intercalate (splitChars sep cs) = cs := by
  induction cs with
  | nil => rfl
  | cons c cs ih =>
    by_cases hc : c = sep
    · subst hc
      rw [splitChars_cons_self, List.intercalate_cons_of_ne_nil (splitChars_ne_nil _ _), ih]
      rfl
    · obtain ⟨piece, pieces, heq, hcons⟩ := splitChars_cons_of_ne hc cs
      rw [heq] at ih
      rw [hcons, List.intercalate_cons_cons_left, ih]

theorem not_mem_of_mem_splitChars (h : piece ∈ splitChars sep cs) : sep ∉ piece := by
  induction cs generalizing piece with
  | nil =>
    rw [List.mem_singleton.mp h]
    exact List.not_mem_nil
  | cons c cs ih =>
    by_cases hc : c = sep
    · subst hc
      rw [splitChars_cons_self] at h
      rcases List.mem_cons.mp h with rfl | h
      · exact List.not_mem_nil
      · exact ih h
    · obtain ⟨first, pieces, heq, hcons⟩ := splitChars_cons_of_ne hc cs
      rw [hcons] at h
      rw [heq] at ih
      rcases List.mem_cons.mp h with rfl | h
      · rw [List.mem_cons, not_or]
        exact ⟨Ne.symm hc, ih (List.mem_cons_self ..)⟩
      · exact ih (List.mem_cons_of_mem _ h)

theorem splitChars_intercalate {pieces : List (List Char)} (hne : pieces ≠ [])
    (h : ∀ piece ∈ pieces, sep ∉ piece) : splitChars sep ([sep].intercalate pieces) = pieces := by
  induction pieces with
  | nil => contradiction
  | cons first rest ih =>
    obtain ⟨hfirst, hrest⟩ := List.forall_mem_cons.mp h
    cases rest with
    | nil => rw [List.intercalate_singleton, splitChars_of_not_mem hfirst]
    | cons second rest =>
      rw [List.intercalate_cons_cons, List.append_assoc, List.singleton_append,
        splitChars_append_cons hfirst, ih (by simp) hrest]

/-- Text that is written in other symbols, one of which alone stands for the separator. -/
theorem splitChars_map {α : Type} [BEq α] [LawfulBEq α] {f : α → Char} {a : α}
    (h : ∀ x, f x = sep ↔ x = a) (symbols : List α) :
    splitChars sep (symbols.map f) = (symbols.splitOn a).map (List.map f) := by
  induction symbols with
  | nil => rfl
  | cons x symbols ih =>
    rw [List.map_cons, List.splitOn_cons_eq_if_modifyHead]
    by_cases hx : x = a
    · rw [(h x).mpr hx, splitChars_cons_self, if_pos (beq_iff_eq.mpr hx), ih]
      rfl
    · obtain ⟨piece, pieces, heq, hcons⟩ := splitChars_cons_of_ne (mt (h x).mp hx) (symbols.map f)
      obtain ⟨first, rest, hsplit⟩ := List.exists_cons_of_ne_nil (List.splitOn_ne_nil a symbols)
      rw [ih, hsplit, List.map_cons] at heq
      obtain ⟨rfl, rfl⟩ := List.cons.inj heq
      rw [hcons, if_neg (by simpa using hx), hsplit]
      rfl

/-- What stands behind the last separator is the end of the last piece. -/
theorem getLast?_splitChars_append (xs : List Char) (h : sep ∉ ys) :
    ∃ piece, (splitChars sep (xs ++ ys)).getLast? = some (piece ++ ys) := by
  induction xs with
  | nil => exact ⟨[], by rw [List.nil_append, splitChars_of_not_mem h]; rfl⟩
  | cons c xs ih =>
    obtain ⟨last, hlast⟩ := ih
    rw [List.cons_append]
    by_cases hc : c = sep
    · subst hc
      rw [splitChars_cons_self, List.getLast?_cons, hlast]
      exact ⟨last, rfl⟩
    · obtain ⟨piece, pieces, heq, hcons⟩ := splitChars_cons_of_ne hc (xs ++ ys)
      rw [heq] at hlast
      rw [hcons]
      cases pieces with
      | nil =>
        obtain rfl : piece = last ++ ys := by simpa using hlast
        exact ⟨c :: last, rfl⟩
      | cons next pieces => exact ⟨last, by simpa using hlast⟩

theorem mem_of_mem_splitChars (h : piece ∈ splitChars sep cs) {c : Char} (hc : c ∈ piece) :
    c ∈ cs := by
  rw [← intercalate_splitChars sep cs]
  revert h
  generalize splitChars sep cs = pieces
  intro h
  induction pieces with
  | nil => cases h
  | cons first rest ih =>
    cases rest with
    | nil =>
      rw [List.mem_singleton.mp h] at hc
      simpa using hc
    | cons second rest =>
      rw [List.intercalate_cons_cons]
      rcases List.mem_cons.mp h with rfl | h
      · exact List.mem_append_left _ (List.mem_append_left _ hc)
      · exact List.mem_append_right _ (ih h)

end

/-! ## Cuts at the end -/

section

variable {p : Char → Bool} {xs ys : List Char} {c : Char}

theorem dropTrailing_append_cons (hc : p c = false) (xs ys : List Char) :
    dropTrailing p (xs ++ c :: ys) = xs ++ c :: dropTrailing p ys := by
  unfold dropTrailing
  rw [List.reverse_append, List.reverse_cons, List.append_assoc, List.dropWhile_append]
  split
  · rename_i hempty
    rw [List.isEmpty_iff] at hempty
    rw [hempty, List.singleton_append, List.dropWhile_cons_of_neg (by simp [hc])]
    simp
  · simp

theorem dropTrailing_prefix (p : Char → Bool) (cs : List Char) : dropTrailing p cs <+: cs := by
  unfold dropTrailing
  rw [← List.reverse_suffix, List.reverse_reverse]
  exact List.dropWhile_suffix p

theorem isBlank_of_isDigit {c : Char} (hc : c.isDigit = true) : isBlank c = false := by
  obtain ⟨hlow, hhigh⟩ : 48 ≤ c.toNat ∧ c.toNat ≤ 57 := Char.isDigit_iff_toNat.mp hc
  simp [isBlank]
  omega

/-- Only blanks are cut. -/
theorem exists_trimChars (cs : List Char) : ∃ before after, cs = before ++ trimChars cs ++ after ∧
    ∀ c ∈ before ++ after, isBlank c = true := by
  have hfront := List.takeWhile_append_dropWhile (p := isBlank) (l := cs)
  have hback := List.takeWhile_append_dropWhile (p := isBlank) (l := (cs.dropWhile isBlank).reverse)
  refine ⟨cs.takeWhile isBlank, ((cs.dropWhile isBlank).reverse.takeWhile isBlank).reverse, ?_, ?_⟩
  · rw [List.append_assoc, trimChars, dropTrailing, ← List.reverse_append, hback,
      List.reverse_reverse, hfront]
  · intro c hc
    rw [List.mem_append, List.mem_reverse] at hc
    have hall : ∀ xs : List Char, ∀ c ∈ xs.takeWhile isBlank, isBlank c = true :=
      fun xs => List.all_eq_true.mp List.all_takeWhile
    exact hc.elim (hall _ c) (hall _ c)

/-- Where the ends are no blanks, the blanks around them are all that is cut. -/
theorem trimChars_append {before cs after : List Char} (hbefore : ∀ c ∈ before, isBlank c = true)
    (hafter : ∀ c ∈ after, isBlank c = true) (hne : cs ≠ [])
    (hfirst : ∀ c, cs.head? = some c → isBlank c = false)
    (hlast : ∀ c, cs.getLast? = some c → isBlank c = false) :
    trimChars (before ++ cs ++ after) = cs := by
  have hrest : dropTrailing isBlank after = [] := by
    unfold dropTrailing
    rw [← List.append_nil after.reverse, List.dropWhile_append_of_pos (by simpa using hafter)]
    rfl
  have hfront : (before ++ cs ++ after).dropWhile isBlank = cs ++ after := by
    obtain ⟨first, rest, rfl⟩ := List.exists_cons_of_ne_nil hne
    rw [List.append_assoc, List.dropWhile_append_of_pos hbefore]
    exact List.dropWhile_cons_of_neg (by simp [hfirst first rfl])
  obtain ⟨init, last, rfl⟩ := (List.eq_nil_or_concat' cs).resolve_left hne
  unfold trimChars
  rw [hfront, List.append_assoc, List.singleton_append,
    dropTrailing_append_cons (hlast last (by simp)), hrest]

end

/-! ## Numbers -/

/-- Digits are read back by anything that takes them one by one, whatever it makes of a number. -/
theorem foldl_toDigits {α : Type} (of : Nat → α) {b : Nat} (hb : 1 < b) {step : α → Char → α}
    (hstep : ∀ m d, d < b → step (of m) (Nat.digitChar d) = of (m * b + d)) (n : Nat) :
    (Nat.toDigits b n).foldl step (of 0) = of n := by
  induction n using Nat.strongRecOn with
  | ind n ih =>
    rw [Nat.toDigits_eq_if hb]
    split
    · rename_i hlt
      rw [List.foldl_cons, List.foldl_nil, hstep 0 n hlt, Nat.zero_mul, Nat.zero_add]
    · have hlt : n / b < n := Nat.div_lt_self (by omega) hb
      rw [List.foldl_append, ih _ hlt, List.foldl_cons, List.foldl_nil,
        hstep _ _ (Nat.mod_lt n (by omega)), Nat.div_add_mod']

theorem exists_digitChar_of_mem {b n : Nat} (hb : 1 < b) {c : Char}
    (hc : c ∈ Nat.toDigits b n) : ∃ d < b, c = Nat.digitChar d := by
  induction n using Nat.strongRecOn with
  | ind n ih =>
    rw [Nat.toDigits_eq_if hb] at hc
    split at hc
    · rename_i hlt
      exact ⟨n, hlt, List.mem_singleton.mp hc⟩
    · rcases List.mem_append.mp hc with hc | hc
      · exact ih _ (Nat.div_lt_self (by omega) hb) hc
      · exact ⟨_, Nat.mod_lt n (by omega), List.mem_singleton.mp hc⟩

theorem hexValue?_digitChar : ∀ d < 16, hexValue? (Nat.digitChar d) = some d := by
  decide

/-- Leading zeros count for nothing. -/
theorem digitsNumber?_of_isDigit {cs : List Char} (hne : cs ≠ [])
    (h : ∀ c ∈ cs, c.isDigit = true) : digitsNumber? cs = some (Nat.ofDigitChars 10 cs 0) := by
  have hread : ∀ n : Nat, cs.foldl (fun acc c => do
      return (← acc) * 10 + (← digitValue? c)) (some n) = some (Nat.ofDigitChars 10 cs n) := by
    clear hne
    induction cs with
    | nil => simp
    | cons c cs ih =>
      obtain ⟨hc, hcs⟩ := List.forall_mem_cons.mp h
      intro n
      rw [List.foldl_cons, Nat.ofDigitChars_cons, Nat.mul_comm, ← ih hcs]
      simp [digitValue?, hc]
  unfold digitsNumber?
  rw [if_neg (by simpa using hne), hread]

theorem isDigit_of_mem_toDigits {n : Nat} : ∀ c ∈ Nat.toDigits 10 n, c.isDigit = true :=
  fun _ hc => Nat.isDigit_of_mem_toDigits (by omega) (by omega) hc

theorem digitsNumber?_toDigits (n : Nat) : digitsNumber? (Nat.toDigits 10 n) = some n := by
  rw [digitsNumber?_of_isDigit Nat.toDigits_ne_nil isDigit_of_mem_toDigits]
  simp

theorem toList_padded (width n : Nat) : (padded width n).toList =
    List.replicate (width - (Nat.toDigits 10 n).length) '0' ++ Nat.toDigits 10 n := by
  have hdigits : toString n = String.ofList (Nat.toDigits 10 n) := Nat.toString_eq_ofList_toDigits
  simp [padded, hdigits]

theorem isDigit_of_mem_padded {width n : Nat} : ∀ c ∈ (padded width n).toList, c.isDigit = true := by
  intro c hc
  rw [toList_padded, List.mem_append] at hc
  rcases hc with hc | hc
  · rw [List.eq_of_mem_replicate hc]
    decide
  · exact isDigit_of_mem_toDigits c hc

theorem digitsNumber?_padded (width n : Nat) : digitsNumber? (padded width n).toList = some n := by
  have hne : (padded width n).toList ≠ [] := by
    rw [toList_padded]
    exact List.append_ne_nil_of_right_ne_nil _ Nat.toDigits_ne_nil
  rw [digitsNumber?_of_isDigit hne isDigit_of_mem_padded, toList_padded, Nat.ofDigitChars_append,
    Nat.ofDigitChars_replicate_zero, Nat.mul_zero, Nat.ofDigitChars_ten_toDigits]

theorem length_padded {width n : Nat} (hwidth : 0 < width) (h : n < 10 ^ width) :
    (padded width n).toList.length = width := by
  have hle := (Nat.length_toDigits_le_iff (by omega) hwidth).mpr h
  rw [toList_padded, List.length_append, List.length_replicate]
  omega

theorem nil_of_toDigits_zero {n : Nat} {cs : List Char} (h : Nat.toDigits 10 n = '0' :: cs) :
    cs = [] := by
  induction n using Nat.strongRecOn generalizing cs with
  | ind n ih =>
    rw [Nat.toDigits_eq_if (by omega)] at h
    split at h
    · exact (List.cons.inj h).2.symm
    · have hlt : n / 10 < n := Nat.div_lt_self (by omega) (by omega)
      obtain ⟨c, rest, hrest⟩ := List.exists_cons_of_ne_nil (@Nat.toDigits_ne_nil (n / 10) 10)
      rw [hrest, List.cons_append] at h
      obtain ⟨rfl, -⟩ := List.cons.inj h
      -- A number with a leading zero is zero, and this one is not.
      have hread := digitsNumber?_toDigits (n / 10)
      rw [hrest, ih _ hlt hrest] at hread
      have hzero : 0 = n / 10 := Option.some.inj hread
      omega

theorem not_mem_toDigits {b n : Nat} (hb : 1 < b) {c : Char} (hc : ∀ d < b, Nat.digitChar d ≠ c) :
    c ∉ Nat.toDigits b n := by
  intro hmem
  obtain ⟨d, hd, rfl⟩ := exists_digitChar_of_mem hb hmem
  exact hc d hd rfl

theorem hexNumber?_toDigits (n : Nat) : hexNumber? (Nat.toDigits 16 n) = some n := by
  refine foldl_toDigits some (by omega) (fun m d hd => ?_) n
  rw [hexValue?_digitChar d hd]
  rfl

theorem digitsNumber?_eq_none {cs : List Char} {c : Char} (hc : c ∈ cs)
    (hdigit : c.isDigit = false) : digitsNumber? cs = none := by
  have hnone : ∀ cs : List Char, cs.foldl (fun acc c => do
      return (← acc) * 10 + (← digitValue? c)) (none : Option Nat) = none := by
    intro cs
    induction cs with
    | nil => rfl
    | cons _ _ ih => exact ih
  obtain ⟨before, after, rfl⟩ := List.append_of_mem hc
  have hvalue : digitValue? c = none := by simp [digitValue?, hdigit]
  unfold digitsNumber?
  rw [if_neg (by simp), List.foldl_append, List.foldl_cons, hvalue]
  cases before.foldl _ _ <;> exact hnone after

theorem numberBelow?_of_isDigit (bound : Nat) {cs : List Char} (hne : cs ≠ [])
    (h : ∀ c ∈ cs, c.isDigit = true) : numberBelow? bound cs =
      if Nat.ofDigitChars 10 cs 0 < bound then some (Nat.ofDigitChars 10 cs 0) else none := by
  unfold numberBelow?
  dsimp only
  split
  · exact absurd (h '+' List.mem_cons_self) (by decide)
  · rw [digitsNumber?_of_isDigit hne h]
    simp [Option.filter]

theorem numberBelow?_toDigits {bound n : Nat} (h : n < bound) :
    numberBelow? bound (Nat.toDigits 10 n) = some n := by
  rw [numberBelow?_of_isDigit bound Nat.toDigits_ne_nil isDigit_of_mem_toDigits]
  simp [h]

theorem numberBelow?_eq_none {bound : Nat} {cs : List Char} {c : Char} (hc : c ∈ cs)
    (hdigit : c.isDigit = false) (hplus : c ≠ '+') : numberBelow? bound cs = none := by
  unfold numberBelow?
  dsimp only
  split
  · have hmem := (List.mem_cons.mp hc).resolve_left hplus
    rw [digitsNumber?_eq_none hmem hdigit]
    rfl
  · rw [digitsNumber?_eq_none hc hdigit]
    rfl

end ServiceCall.Text
