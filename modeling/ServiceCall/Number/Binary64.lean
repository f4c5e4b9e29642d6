/-!
# Binary floating point

The 64-bit format: a sign, 11 bits of exponent, 52 bits of significand. Every operation is the
exact result on fractions, rounded to the nearest representable number, a tie to the even one.
-/

namespace ServiceCall

/-- A 64-bit floating point number, by its bits. -/
structure Binary64 where
  bits : UInt64
  deriving DecidableEq, Repr, Inhabited

namespace Binary64

def signBit : Nat := 1 <<< 63

/-- The bit of the significand that is not written. -/
def leadingBit : Nat := 1 <<< 52

/-- The magnitude that stands for a number too large for the format. -/
def infinite : Nat := 2047 <<< 52

/-- The steps of the smallest magnitude in 1. -/
def unit : Nat := 1 <<< 1074

def isNegative (x : Binary64) : Bool := signBit ≤ x.bits.toNat

/-- The bits without the sign; they are ordered as the numbers are. -/
def magnitude (x : Binary64) : Nat := x.bits.toNat % signBit

def isInfinite (x : Binary64) : Bool := x.magnitude = infinite

def ofMagnitude (negative : Bool) (magnitude : Nat) : Binary64 :=
  ⟨UInt64.ofNat (magnitude + if negative then signBit else 0)⟩

/-- How many steps of the smallest magnitude a magnitude is. -/
def steps (magnitude : Nat) : Nat :=
  let exponent := magnitude / leadingBit
  let fraction := magnitude % leadingBit
  if exponent = 0 then fraction else (leadingBit + fraction) <<< (exponent - 1)

/-- A quotient to the nearest whole number, a half to the even one. -/
def roundHalfEven (num den : Nat) : Nat :=
  let q := num / den
  let r := num % den
  if 2 * r < den || (2 * r = den && q % 2 = 0) then q else q + 1

/-- The magnitude nearest to `num / den`. -/
def nearest (num den : Nat) : Nat :=
  let scaled := num * unit
  -- The step doubles until the significand fits 53 bits.
  let doublings := (scaled / den).log2 - 52
  min (doublings * leadingBit + roundHalfEven scaled (den <<< doublings)) infinite

/-- The number nearest to the fraction `num / den`. -/
def ofFraction (negative : Bool) (num den : Nat) : Binary64 :=
  ofMagnitude negative (nearest num den)

def ofNat (n : Nat) : Binary64 := ofFraction false n 1

def ofInt (n : Int) : Binary64 := ofFraction (n < 0) n.natAbs 1

def zero : Binary64 := ⟨0⟩

def isZero (x : Binary64) : Bool := x.magnitude = 0

def neg (x : Binary64) : Binary64 := ofMagnitude (!x.isNegative) x.magnitude

/-- The product of two finite numbers. -/
def mul (x y : Binary64) : Binary64 :=
  ofFraction (x.isNegative != y.isNegative) (steps x.magnitude * steps y.magnitude) (unit * unit)

/-- The quotient of two finite numbers, the second of which is not zero. -/
def div (x y : Binary64) : Binary64 :=
  ofFraction (x.isNegative != y.isNegative) (steps x.magnitude) (steps y.magnitude)

/-- The sum of two finite numbers that are not negative. -/
def add (x y : Binary64) : Binary64 :=
  ofFraction false (steps x.magnitude + steps y.magnitude) unit

/-- The power of ten nearest to `10 ^ n`. -/
def powerOfTen (n : Nat) : Binary64 := ofNat (Nat.pow 10 n)

end Binary64

end ServiceCall
