import ServiceCall.Text.Blank

/-!
# Spans of time

A span is a whole number of nanoseconds that fits 64-bit seconds. Arithmetic stays inside the
type: a sum, product or difference that would leave it stops at the nearest end.
-/

namespace ServiceCall

def nanosPerSecond : Nat := 1000000000

/-- A span of time in nanoseconds. -/
structure Duration where
  nanos : Nat
  nanos_le : nanos ≤ 18446744073709551615 * 1000000000 + 999999999 := by decide
  deriving DecidableEq

namespace Duration

instance : Repr Duration := ⟨fun d _ => repr d.nanos ++ " ns"⟩

def maxNanos : Nat := 18446744073709551615 * 1000000000 + 999999999

def max : Duration := ⟨maxNanos, Nat.le_refl _⟩

def zero : Duration := ⟨0, Nat.zero_le _⟩

instance : Inhabited Duration := ⟨zero⟩

/-- The span of `n` nanoseconds, or the longest one if that is too many. -/
def ofNanos (n : Nat) : Duration := ⟨min n maxNanos, Nat.min_le_right _ _⟩

def ofNanos? (n : Nat) : Option Duration :=
  if h : n ≤ maxNanos then some ⟨n, h⟩ else none

def ofSecs (n : Nat) : Duration := ofNanos (n * nanosPerSecond)

def ofMillis (n : Nat) : Duration := ofNanos (n * 1000000)

instance : LE Duration := ⟨fun a b => a.nanos ≤ b.nanos⟩

instance : LT Duration := ⟨fun a b => a.nanos < b.nanos⟩

instance (a b : Duration) : Decidable (a ≤ b) := inferInstanceAs (Decidable (a.nanos ≤ b.nanos))

instance (a b : Duration) : Decidable (a < b) := inferInstanceAs (Decidable (a.nanos < b.nanos))

instance : Min Duration := ⟨fun a b => if a ≤ b then a else b⟩

def isZero (d : Duration) : Bool := d.nanos = 0

/-- `k` times the span, at most the longest one. -/
def times (k : Nat) (d : Duration) : Duration := ofNanos (k * d.nanos)

/-- What is left of `a` after `b`, or nothing. -/
def minus (a b : Duration) : Duration :=
  ⟨a.nanos - b.nanos, Nat.le_trans (Nat.sub_le _ _) a.nanos_le⟩

/-- The span cut up into `parts` equal parts, `n` of them. -/
def portion (n parts : Nat) (d : Duration) : Duration := ofNanos (d.nanos * n / parts)

/-- The shortest span of whole seconds that is not shorter than this one. -/
def roundedUpToSeconds (d : Duration) : Duration :=
  ofSecs ((d.nanos + (nanosPerSecond - 1)) / nanosPerSecond)

@[ext] theorem ext {a b : Duration} (h : a.nanos = b.nanos) : a = b := by
  cases a; cases b; cases h; rfl

theorem le_iff (a b : Duration) : a ≤ b ↔ a.nanos ≤ b.nanos := Iff.rfl

@[simp] theorem nanos_ofNanos (n : Nat) : (ofNanos n).nanos = Nat.min n maxNanos := rfl

@[simp] theorem nanos_zero : zero.nanos = 0 := rfl

@[simp] theorem nanos_max : max.nanos = maxNanos := rfl

@[simp] theorem nanos_times (k : Nat) (d : Duration) :
    (times k d).nanos = Nat.min (k * d.nanos) maxNanos := rfl

@[simp] theorem nanos_minus (a b : Duration) : (minus a b).nanos = a.nanos - b.nanos := rfl

theorem nanos_min (a b : Duration) : (min a b).nanos = Nat.min a.nanos b.nanos := by
  show (if a ≤ b then a else b).nanos = _
  by_cases h : a ≤ b
  · rw [if_pos h]; exact (Nat.min_eq_left h).symm
  · rw [if_neg h]; exact (Nat.min_eq_right (Nat.le_of_lt (Nat.lt_of_not_le h))).symm

/-! ## Text -/

/-- A fraction of `width` digits behind a point, without its trailing zeros; nothing if it is
zero. -/
def fractionText (width fraction : Nat) : String :=
  let digits := (Text.padded width fraction).toList
  let kept := Text.dropTrailing (· = '0') digits
  if kept.isEmpty then "" else String.ofList ('.' :: kept)

/-- The span in the largest unit, from seconds down to nanoseconds, that it fills. -/
def text (d : Duration) : String :=
  let n := d.nanos
  if n ≥ 1000000000 then
    toString (n / 1000000000) ++ fractionText 9 (n % 1000000000) ++ "s"
  else if n ≥ 1000000 then toString (n / 1000000) ++ fractionText 6 (n % 1000000) ++ "ms"
  else if n ≥ 1000 then toString (n / 1000) ++ fractionText 3 (n % 1000) ++ "µs"
  else toString n ++ "ns"

end Duration

end ServiceCall
