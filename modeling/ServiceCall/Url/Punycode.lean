import ServiceCall.Text.Blank

/-!
# Punycode

A label of any characters in letters, digits and hyphens: the ASCII characters first, then where
and which the others are, as numbers of a variable base.
-/

namespace ServiceCall.Url.Punycode

def base : Nat := 36
def firstBias : Nat := 72
def firstCodePoint : Nat := 128

/-- The threshold of the digit at position `k`. -/
def threshold (k bias : Nat) : Nat :=
  if k ≤ bias then 1 else if k ≥ bias + 26 then 26 else k - bias

theorem threshold_pos (k bias : Nat) : 0 < threshold k bias := by
  unfold threshold
  split
  · omega
  · split <;> omega

/-- Divides out the growth of a number, and counts how often. -/
def reduced (delta : Nat) : Nat × Nat :=
  if _h : delta > 455 then
    let (d, k) := reduced (delta / 35)
    (d, k + base)
  else (delta, 0)
termination_by delta
decreasing_by omega

/-- The bias after a number, given how many characters are placed. -/
def adapted (delta count : Nat) (first : Bool) : Nat :=
  let delta := if first then delta / 700 else delta / 2
  let (d, k) := reduced (delta + delta / count)
  k + base * d / (d + 38)

def digit (n : Nat) : Char := if n < 26 then Char.ofNat (0x61 + n) else Char.ofNat (0x30 + (n - 26))

def digitValue? (c : Char) : Option Nat :=
  let c := c.toLower
  if c.isDigit then some (c.toNat - 0x30 + 26)
  else if 'a' ≤ c ∧ c ≤ 'z' then some (c.toNat - 0x61)
  else none

/-! ## Encoding -/

def number (bias q k : Nat) : List Char :=
  let t := threshold k bias
  if _h : q < t then [digit q]
  else digit (t + (q - t) % (base - t)) :: number bias ((q - t) / (base - t)) (k + base)
termination_by q
decreasing_by
  have := threshold_pos k bias
  exact Nat.lt_of_le_of_lt (Nat.div_le_self _ _) (by omega)

/-- The state between two code points: numbers written, the current distance, the bias, and how
many characters are placed. -/
structure Writer where
  out : List Char
  delta : Nat
  bias : Nat
  placed : Nat

/-- Walks over the label for the code point `n`. -/
def visit (basic n : Nat) (w : Writer) (c : Nat) : Writer :=
  if c < n then { w with delta := w.delta + 1 }
  else if c = n then
    { out := w.out ++ number w.bias w.delta base
      delta := 0
      bias := adapted w.delta (w.placed + 1) (w.placed = basic)
      placed := w.placed + 1 }
  else w

def encode (label : List Char) : List Char :=
  let basic := label.filter (·.toNat < firstCodePoint)
  let points := label.map Char.toNat
  let foreign := ((points.filter (· ≥ firstCodePoint)).mergeSort (· ≤ ·)).eraseDups
  let start : Writer :=
    ⟨if basic.isEmpty then [] else basic ++ ['-'], 0, firstBias, basic.length⟩
  let (w, _) := foreign.foldl (fun (w, n) m =>
    let w := { w with delta := w.delta + (m - n) * (w.placed + 1) }
    let w := points.foldl (visit basic.length m) w
    ({ w with delta := w.delta + 1 }, m + 1)) (start, firstCodePoint)
  w.out

/-! ## Decoding -/

/-- The label so far, and the number that is being read. -/
structure Reader where
  label : List Char
  codePoint : Nat
  index : Nat
  bias : Nat
  startIndex : Nat
  weight : Nat
  k : Nat

def readDigit (r : Reader) (c : Char) : Option Reader := do
  let d ← digitValue? c
  let index := r.index + d * r.weight
  let t := threshold r.k r.bias
  if d < t then
    let count := r.label.length + 1
    let codePoint := r.codePoint + index / count
    let place := index % count
    if !codePoint.isValidChar then none
    else
      some {
        label := r.label.take place ++ Char.ofNat codePoint :: r.label.drop place
        codePoint
        index := place + 1
        bias := adapted (index - r.startIndex) count (r.startIndex = 0)
        startIndex := place + 1
        weight := 1
        k := base }
  else some { r with index, weight := r.weight * (base - t), k := r.k + base }

def decode? (cs : List Char) : Option (List Char) := do
  let pieces := Text.splitChars '-' cs
  let basic := ['-'].intercalate pieces.dropLast
  let rest := if pieces.length > 1 then pieces.getLast?.getD [] else cs
  let r ← rest.foldlM readDigit ⟨basic, firstCodePoint, 0, firstBias, 0, 1, base⟩
  if r.k = base then some r.label else none

end ServiceCall.Url.Punycode
