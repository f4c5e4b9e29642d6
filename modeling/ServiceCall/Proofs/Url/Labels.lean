import ServiceCall.Proofs.Url.Names
import Mathlib.Data.List.Sort
import Mathlib.Tactic.Ring

/-!
# Labels that are read back

A label in Punycode is decoded to the characters it was encoded from. The writer walks over the
label once for each code point, and the reader follows it from number to number: what it holds
then are the characters that the writer has come by, in their order, and the writer counts how far
the next place is.
-/

namespace ServiceCall.Url.Punycode

/-! ## Digits -/

theorem digitValue?_digit : ∀ n < base, digitValue? (digit n) = some n := by decide

/-- A character that numbers are written in. -/
def IsDigit (c : Char) : Prop := ∃ n < base, c = digit n

theorem IsDigit.ne {c d : Char} (h : IsDigit c) (hd : ∀ n < base, digit n ≠ d) : c ≠ d := by
  obtain ⟨n, hn, rfl⟩ := h
  exact hd n hn

section

variable {bias q k : Nat}

theorem threshold_add_mod_lt (bias q k : Nat) :
    threshold k bias + q % (base - threshold k bias) < base := by
  have hle := threshold_le k bias
  have hmod : q % (base - threshold k bias) < base - threshold k bias :=
    Nat.mod_lt _ (by unfold base; omega)
  omega

theorem isDigit_of_mem_number {c : Char} (hc : c ∈ number bias q k) : IsDigit c := by
  fun_induction number bias q k with
  | case1 q k t hlt =>
    have hle := threshold_le k bias
    exact ⟨q, by unfold base; omega, List.mem_singleton.mp hc⟩
  | case2 q k t hge ih =>
    rcases List.mem_cons.mp hc with rfl | hc
    · exact ⟨_, threshold_add_mod_lt .., rfl⟩
    · exact ih hc

end

/-! ## Reading a number -/

/-- The reader once its number is complete and leads to this index. -/
def Reader.place? (r : Reader) (index : Nat) : Option Reader :=
  let count := r.label.length + 1
  let codePoint := r.codePoint + index / count
  let place := index % count
  if !codePoint.isValidChar then none
  else
    some {
      label := r.label.take place ++ Char.ofNat codePoint :: r.label.drop place
      codePoint
      index := place + 1
      bias := adapted (index - r.startIndex) count (r.startIndex = 0)
      startIndex := place + 1
      weight := 1
      k := base }

theorem readDigit_digit (r : Reader) {d : Nat} (hd : d < base) :
    readDigit r (digit d) =
      if d < threshold r.k r.bias then r.place? (r.index + d * r.weight)
      else some { r with
        index := r.index + d * r.weight
        weight := r.weight * (base - threshold r.k r.bias)
        k := r.k + base } := by
  unfold readDigit
  rw [digitValue?_digit d hd]
  rfl

theorem foldlM_number {bias q k : Nat} {r : Reader} (hbias : r.bias = bias) (hk : r.k = k) :
    (number bias q k).foldlM readDigit r = r.place? (r.index + q * r.weight) := by
  fun_induction number bias q k generalizing r with
  | case1 q k t =>
    rename_i hlt
    subst hbias hk
    have hle := threshold_le r.k r.bias
    rw [List.foldlM_cons, readDigit_digit r (by unfold base; omega), if_pos hlt]
    exact bind_pure _
  | case2 q k t =>
    rename_i hge ih
    subst hbias hk
    have hsum : (t + (q - t) % (base - t)) * r.weight +
        (q - t) / (base - t) * (r.weight * (base - t)) = q * r.weight := by
      have hq : t + (q - t) % (base - t) + (q - t) / (base - t) * (base - t) = q := by
        have hdiv := Nat.mod_add_div' (q - t) (base - t)
        omega
      calc (t + (q - t) % (base - t)) * r.weight + (q - t) / (base - t) * (r.weight * (base - t))
          = (t + (q - t) % (base - t) + (q - t) / (base - t) * (base - t)) * r.weight := by ring
        _ = q * r.weight := by rw [hq]
    let next : Reader := { r with
      index := r.index + (t + (q - t) % (base - t)) * r.weight
      weight := r.weight * (base - t)
      k := r.k + base }
    have hnext : next.place? (next.index + (q - t) / (base - t) * next.weight) =
        r.place? (r.index + q * r.weight) := by
      rw [← hsum, ← Nat.add_assoc]
      rfl
    rw [List.foldlM_cons, readDigit_digit r (threshold_add_mod_lt ..), if_neg (by omega), ← hnext]
    exact ih (r := next) rfl rfl

/-! ## Writer and reader -/

/-- What the writer has written behind the front, all of it numbers, leads the reader from where
it began to where it is. -/
def Leads (front : List Char) (begun : Reader) (w : Writer) (r : Reader) : Prop :=
  ∃ digits, w.out = front ++ digits ∧ (∀ c ∈ digits, IsDigit c) ∧
    digits.foldlM readDigit begun = some r

/-- The reader between two numbers, while the writer walks over a label for the code point `n`
and has come by the characters `before`. -/
structure InStep (basic n : Nat) (before after : List Char) (w : Writer) (r : Reader) : Prop where
  label : r.label = before.filter (·.toNat ≤ n) ++ after.filter (·.toNat < n)
  placed : w.placed = r.label.length
  codePoint : r.codePoint ≤ n
  /-- From the place of the last character it is this far to the place the writer is at. -/
  distance : r.index + w.delta =
    (n - r.codePoint) * (w.placed + 1) + (before.filter (·.toNat ≤ n)).length
  startIndex : r.startIndex = r.index
  weight : r.weight = 1
  k : r.k = base
  bias : r.bias = w.bias
  least : basic ≤ w.placed
  first : r.startIndex = 0 ↔ w.placed = basic

section

variable {basic n : Nat} {before after label front : List Char} {w : Writer} {r begun : Reader}

/-- A number that the writer puts down where it meets the code point takes the reader along. -/
theorem InStep.place {c : Char} (h : InStep basic c.toNat before (c :: after) w r) :
    ∃ r', r.place? (r.index + w.delta * r.weight) = some r' ∧
      InStep basic c.toNat (before ++ [c]) after (visit basic c.toNat w c.toNat) r' := by
  have hlabel := h.label
  rw [List.filter_cons_of_neg (by simp)] at hlabel
  have hle : (before.filter (·.toNat ≤ c.toNat)).length < w.placed + 1 := by
    rw [h.placed, hlabel, List.length_append]
    omega
  have hdiv : (r.index + w.delta * r.weight) / (r.label.length + 1) = c.toNat - r.codePoint := by
    rw [h.weight, Nat.mul_one, ← h.placed, h.distance, Nat.mul_comm,
      Nat.mul_add_div (by omega), Nat.div_eq_of_lt hle, Nat.add_zero]
  have hmod : (r.index + w.delta * r.weight) % (r.label.length + 1) =
      (before.filter (·.toNat ≤ c.toNat)).length := by
    rw [h.weight, Nat.mul_one, ← h.placed, h.distance, Nat.mul_comm, Nat.mul_add_mod,
      Nat.mod_eq_of_lt hle]
  have hpoint : r.codePoint + (c.toNat - r.codePoint) = c.toNat := by
    have := h.codePoint
    omega
  have hvalid : Nat.isValidChar c.toNat := c.valid
  have hvisit : visit basic c.toNat w c.toNat =
      ⟨w.out ++ number w.bias w.delta base, 0,
        adapted w.delta (w.placed + 1) (w.placed = basic), w.placed + 1⟩ := by
    unfold visit
    rw [if_neg (Nat.lt_irrefl _), if_pos rfl]
  have hread : r.place? (r.index + w.delta * r.weight) = some
      { label := before.filter (·.toNat ≤ c.toNat) ++ c :: after.filter (·.toNat < c.toNat)
        codePoint := c.toNat
        index := (before.filter (·.toNat ≤ c.toNat)).length + 1
        bias := adapted w.delta (w.placed + 1) (w.placed = basic)
        startIndex := (before.filter (·.toNat ≤ c.toNat)).length + 1
        weight := 1
        k := base } := by
    have hfirst : decide (r.startIndex = 0) = decide (w.placed = basic) :=
      decide_eq_decide.mpr h.first
    unfold Reader.place?
    dsimp only
    rw [hdiv, hmod, hpoint, if_neg (by simp [hvalid]), hfirst, h.startIndex, h.weight, Nat.mul_one,
      Nat.add_sub_cancel_left, Char.ofNat_toNat, ← h.placed, hlabel, List.take_left,
      List.drop_left]
  have hnext : (before ++ [c]).filter (·.toNat ≤ c.toNat) =
      before.filter (·.toNat ≤ c.toNat) ++ [c] := by simp
  refine ⟨_, hread, ?_⟩
  rw [hvisit]
  exact {
    label := by rw [hnext, List.append_assoc]; rfl
    placed := by
      rw [h.placed, hlabel]
      simp only [List.length_append, List.length_cons]
      omega
    codePoint := Nat.le_refl _
    distance := by rw [hnext]; simp
    startIndex := rfl
    weight := rfl
    k := rfl
    bias := rfl
    least := Nat.le_succ_of_le h.least
    first := by
      have := h.least
      dsimp only
      omega }

theorem InStep.visit (h : InStep basic n before (c :: after) w r) (hleads : Leads front begun w r) :
    ∃ r', InStep basic n (before ++ [c]) after (visit basic n w c.toNat) r' ∧
      Leads front begun (visit basic n w c.toNat) r' := by
  rcases Nat.lt_trichotomy c.toNat n with hlt | rfl | hgt
  · have hvisit : Punycode.visit basic n w c.toNat = { w with delta := w.delta + 1 } := if_pos hlt
    have hbefore : (before ++ [c]).filter (·.toNat ≤ n) = before.filter (·.toNat ≤ n) ++ [c] := by
      simp [Nat.le_of_lt hlt]
    rw [hvisit]
    refine ⟨r, { h with label := ?_, distance := ?_ }, hleads⟩
    · rw [hbefore, h.label, List.filter_cons_of_pos (by simpa using hlt), List.append_assoc]
      rfl
    · rw [hbefore, List.length_append, ← Nat.add_assoc, ← Nat.add_assoc, h.distance]
      rfl
  · obtain ⟨r', hplace, hstep⟩ := h.place
    obtain ⟨digits, hout, hdigits, hread⟩ := hleads
    have hvisit : (Punycode.visit basic c.toNat w c.toNat).out =
        w.out ++ number w.bias w.delta base := by
      unfold Punycode.visit
      rw [if_neg (Nat.lt_irrefl _), if_pos rfl]
    refine ⟨r', hstep, digits ++ number w.bias w.delta base, ?_, ?_, ?_⟩
    · rw [hvisit, hout, List.append_assoc]
    · intro d hd
      rcases List.mem_append.mp hd with hd | hd
      · exact hdigits d hd
      · exact isDigit_of_mem_number hd
    · rw [List.foldlM_append, hread]
      exact (foldlM_number h.bias h.k).trans hplace
  · have hvisit : Punycode.visit basic n w c.toNat = w := by
      unfold Punycode.visit
      rw [if_neg (by omega), if_neg (by omega)]
    have hbefore : (before ++ [c]).filter (·.toNat ≤ n) = before.filter (·.toNat ≤ n) := by
      simp [hgt]
    rw [hvisit]
    refine ⟨r, { h with label := ?_, distance := ?_ }, hleads⟩
    · rw [hbefore, h.label, List.filter_cons_of_neg (by simp; omega)]
    · rw [hbefore]
      exact h.distance

/-- The walk over a whole label. -/
theorem InStep.walk (h : InStep basic n before after w r) (hleads : Leads front begun w r) :
    ∃ r', InStep basic n (before ++ after) []
        ((after.map Char.toNat).foldl (Punycode.visit basic n) w) r' ∧
      Leads front begun ((after.map Char.toNat).foldl (Punycode.visit basic n) w) r' := by
  induction after generalizing before w r with
  | nil => exact ⟨r, by rwa [List.append_nil], hleads⟩
  | cons c after ih =>
    obtain ⟨r', hstep, hleads⟩ := h.visit hleads
    have hrest := ih hstep hleads
    rwa [List.append_assoc] at hrest

/-- Where no character of the label lies in between, the writer goes on to the next code point at
once. -/
theorem InStep.skip {m : Nat} (h : InStep basic n [] label w r) (hnm : n ≤ m)
    (hnone : ∀ c ∈ label, n ≤ c.toNat → m ≤ c.toNat) :
    InStep basic m [] label { w with delta := w.delta + (m - n) * (w.placed + 1) } r where
  label := by
    rw [h.label]
    refine List.filter_congr fun c hc => decide_eq_decide.mpr ?_
    have := hnone c hc
    omega
  placed := h.placed
  codePoint := Nat.le_trans h.codePoint hnm
  distance := by
    have hle := h.codePoint
    have hsum : m - r.codePoint = (n - r.codePoint) + (m - n) := by omega
    rw [hsum, Nat.add_mul, ← Nat.add_assoc, h.distance]
    rfl
  startIndex := h.startIndex
  weight := h.weight
  k := h.k
  bias := h.bias
  least := h.least
  first := h.first

/-- At the end of the label the writer turns to the following code point. -/
theorem InStep.turn (h : InStep basic n label [] w r) :
    InStep basic (n + 1) [] label { w with delta := w.delta + 1 } r where
  label := by
    rw [h.label]
    simp only [Nat.lt_succ_iff, List.filter_nil, List.append_nil, List.nil_append]
  placed := h.placed
  codePoint := Nat.le_succ_of_le h.codePoint
  distance := by
    have hle := h.codePoint
    have hlength : (label.filter (·.toNat ≤ n)).length = w.placed := by
      rw [h.placed, h.label, List.filter_nil, List.append_nil]
    have hsum : n + 1 - r.codePoint = (n - r.codePoint) + 1 := by omega
    rw [hsum, Nat.add_mul, Nat.one_mul, ← Nat.add_assoc, h.distance, hlength]
    rfl
  startIndex := h.startIndex
  weight := h.weight
  k := h.k
  bias := h.bias
  least := h.least
  first := h.first

end

/-! ## Whole labels -/

/-- One walk over the label, for the code point `m`, after those below `n`. -/
def pass (label : List Char) (basic : Nat) (s : Writer × Nat) (m : Nat) : Writer × Nat :=
  let w := { s.1 with delta := s.1.delta + (m - s.2) * (s.1.placed + 1) }
  let w := (label.map Char.toNat).foldl (visit basic m) w
  ({ w with delta := w.delta + 1 }, m + 1)

/-- The code points that the writer walks for. -/
def foreign (label : List Char) : List Nat :=
  (((label.map Char.toNat).filter (· ≥ firstCodePoint)).mergeSort (· ≤ ·)).eraseDups

def basics (label : List Char) : List Char := label.filter (·.toNat < firstCodePoint)

/-- What stands in front of the numbers. -/
def front (label : List Char) : List Char :=
  if (basics label).isEmpty then [] else basics label ++ ['-']

theorem encode_eq (label : List Char) :
    encode label = ((foreign label).foldl (pass label (basics label).length)
      (⟨front label, 0, firstBias, (basics label).length⟩, firstCodePoint)).1.out := rfl

theorem pairwise_eraseDups (points : List Nat) (h : points.Pairwise (· ≤ ·)) :
    points.eraseDups.Pairwise (· < ·) := by
  induction hn : points.length using Nat.strongRecOn generalizing points with
  | ind n ih =>
    cases points with
    | nil => exact .nil
    | cons m points =>
      obtain ⟨hm, hpoints⟩ := List.pairwise_cons.mp h
      have hshort : (points.filter fun p => !p == m).length < n := by
        have hle := List.length_filter_le (fun p => !p == m) points
        rw [← hn, List.length_cons]
        omega
      rw [List.eraseDups_cons, List.pairwise_cons]
      refine ⟨?_, ih _ hshort _ (hpoints.filter _) rfl⟩
      intro p hp
      obtain ⟨hmem, hne⟩ := List.mem_filter.mp (List.mem_eraseDups.mp hp)
      have hle := hm p hmem
      simp only [Bool.not_eq_eq_eq_not, Bool.not_true, beq_eq_false_iff_ne] at hne
      omega

theorem pairwise_foreign (label : List Char) : (foreign label).Pairwise (· < ·) :=
  pairwise_eraseDups _ (List.pairwise_mergeSort' (· ≤ ·) _)

theorem mem_foreign {label : List Char} {m : Nat} :
    m ∈ foreign label ↔ (∃ c ∈ label, c.toNat = m) ∧ firstCodePoint ≤ m := by
  unfold foreign
  rw [List.mem_eraseDups, List.mem_mergeSort, List.mem_filter, List.mem_map]
  simp

section

variable {basic n : Nat} {label front : List Char} {w : Writer} {r begun : Reader}

/-- The walks for all code points that are left. -/
theorem InStep.passes {points : List Nat} (hsorted : points.Pairwise (· < ·))
    (hleast : ∀ m ∈ points, n ≤ m) (hall : ∀ c ∈ label, n ≤ c.toNat → c.toNat ∈ points)
    (h : InStep basic n [] label w r) (hleads : Leads front begun w r) :
    ∃ r', r'.label = label ∧ r'.k = base ∧
      Leads front begun (points.foldl (pass label basic) (w, n)).1 r' := by
  induction points generalizing n w r with
  | nil =>
    refine ⟨r, ?_, h.k, hleads⟩
    rw [h.label, List.filter_nil, List.nil_append, List.filter_eq_self]
    intro c hc
    refine decide_eq_true (Nat.lt_of_not_le fun hle => ?_)
    cases hall c hc hle
  | cons m points ih =>
    obtain ⟨hm, hsorted⟩ := List.pairwise_cons.mp hsorted
    have hnone : ∀ c ∈ label, n ≤ c.toNat → m ≤ c.toNat := by
      intro c hc hle
      rcases List.mem_cons.mp (hall c hc hle) with heq | hmem
      · exact Nat.le_of_eq heq.symm
      · exact Nat.le_of_lt (hm _ hmem)
    have hskipped := h.skip (hleast m (List.mem_cons_self ..)) hnone
    obtain ⟨r', hstep, hleads⟩ := hskipped.walk hleads
    refine ih hsorted hm ?_ hstep.turn hleads
    intro c hc hle
    have hmem := hall c hc (by have := hleast m (List.mem_cons_self ..); omega)
    exact (List.mem_cons.mp hmem).resolve_left (by omega)

end

/-- An encoded label is its ASCII characters and numbers that the reader makes the label of. -/
theorem exists_digits (label : List Char) :
    ∃ digits r, encode label = front label ++ digits ∧ (∀ c ∈ digits, IsDigit c) ∧
      digits.foldlM readDigit ⟨basics label, firstCodePoint, 0, firstBias, 0, 1, base⟩ = some r ∧
      r.label = label ∧ r.k = base := by
  let start : Writer := ⟨front label, 0, firstBias, (basics label).length⟩
  let begun : Reader := ⟨basics label, firstCodePoint, 0, firstBias, 0, 1, base⟩
  have hbegun : InStep (basics label).length firstCodePoint [] label start begun :=
    { label := rfl, placed := rfl, codePoint := Nat.le_refl _, distance := by simp [start, begun]
      startIndex := rfl, weight := rfl, k := rfl, bias := rfl, least := Nat.le_refl _
      first := by simp [start, begun] }
  have hleads : Leads (front label) begun start begun :=
    ⟨[], (List.append_nil _).symm, List.forall_mem_nil _, rfl⟩
  obtain ⟨r, hlabel, hk, digits, hout, hdigits, hread⟩ :=
    hbegun.passes (pairwise_foreign label) (fun m hm => (mem_foreign.mp hm).2)
      (fun c hc hle => mem_foreign.mpr ⟨⟨c, hc, rfl⟩, hle⟩) hleads
  exact ⟨digits, r, by rw [encode_eq]; exact hout, hdigits, hread, hlabel, hk⟩

theorem decode?_encode (label : List Char) : decode? (encode label) = some label := by
  obtain ⟨digits, r, hencode, hdigits, hread, hlabel, hk⟩ := exists_digits label
  have hno : '-' ∉ digits := fun hmem => (hdigits '-' hmem).ne (by decide) rfl
  have hresult : (do
      let r ← digits.foldlM readDigit
        ⟨basics label, firstCodePoint, 0, firstBias, 0, 1, base⟩
      if r.k = base then some r.label else none) = some label := by
    rw [hread]
    exact (if_pos hk).trans (congrArg some hlabel)
  unfold decode?
  rw [hencode]
  unfold front
  split
  · rename_i hempty
    have hnil : basics label = [] := List.isEmpty_iff.mp hempty
    rw [hnil] at hresult
    rw [List.nil_append, Text.splitChars_of_not_mem hno]
    exact hresult
  · have hpieces := Text.splitChars_append '-' (basics label) digits
    rw [Text.splitChars_of_not_mem hno] at hpieces
    rw [List.append_assoc, List.singleton_append, hpieces]
    have hmany : (Text.splitChars '-' (basics label) ++ [digits]).length > 1 := by
      have hpos := List.length_pos_iff.mpr (Text.splitChars_ne_nil '-' (basics label))
      rw [List.length_append, List.length_singleton]
      omega
    simp only [List.dropLast_concat, Text.intercalate_splitChars, if_pos hmany,
      List.getLast?_concat, Option.getD_some]
    exact hresult

theorem not_mem_encode {label : List Char} {d : Char} (hlabel : d ∉ label) (hhyphen : d ≠ '-')
    (hdigit : ∀ n < base, digit n ≠ d) : d ∉ encode label := by
  obtain ⟨digits, -, hencode, hdigits, -⟩ := exists_digits label
  rw [hencode, List.mem_append, not_or]
  constructor
  · unfold front
    split
    · exact List.not_mem_nil
    · rw [List.mem_append, not_or, List.mem_singleton]
      exact ⟨fun hmem => hlabel (List.mem_of_mem_filter hmem), hhyphen⟩
  · exact fun hmem => (hdigits d hmem).ne hdigit rfl

end ServiceCall.Url.Punycode
