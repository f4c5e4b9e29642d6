import ServiceCall.Number.Binary64

/-!
# Shortest decimals

The decimal text of a floating point number has the fewest digits that read back to the same
number, and of those the digits nearest to it.
-/

namespace ServiceCall.Binary64

/-- A decimal number: `digits` times ten to the power `exponent`. -/
structure Decimal where
  digits : Nat
  exponent : Int
  deriving DecidableEq, Repr

namespace Decimal

/-- The magnitude a decimal reads as. -/
def toMagnitude (d : Decimal) : Nat :=
  if d.exponent < 0 then nearest d.digits (Nat.pow 10 d.exponent.natAbs)
  else nearest (d.digits * Nat.pow 10 d.exponent.toNat) 1

/-- Removes trailing zeros, at most `fuel` of them. -/
def trimmed : (fuel : Nat) → Decimal → Decimal
  | 0, d => d
  | fuel + 1, d =>
    if d.digits % 10 = 0 then trimmed fuel ⟨d.digits / 10, d.exponent + 1⟩ else d

end Decimal

def digitCount (n : Nat) : Nat := (Nat.toDigits 10 n).length

/-- The exponent of the first digit of `num / den`, which is positive. -/
def leadingExponent (num den : Nat) : Int :=
  if num ≥ den then digitCount (num / den) - 1 else -(digitCount ((den - 1) / num) : Int)

/-- The neighbour of `num / den` on the grid of `10 ^ exponent` that reads back as `magnitude`,
the nearer one if both do; a tie goes to the even one. -/
def neighbour? (magnitude num den : Nat) (exponent : Int) : Option Decimal :=
  let n := if exponent < 0 then num * Nat.pow 10 exponent.natAbs else num
  let d := if exponent < 0 then den else den * Nat.pow 10 exponent.toNat
  let below := n / d
  let readsBack (digits : Nat) : Bool :=
    digits ≠ 0 && (Decimal.mk digits exponent).toMagnitude = magnitude
  let first := roundHalfEven n d
  let second := if first = below then below + 1 else below
  if readsBack first then some ⟨first, exponent⟩
  else if readsBack second then some ⟨second, exponent⟩
  else none

/-- Tries grids of ever more digits, `count` of them, from `digits` digits on. -/
def shortestFrom (magnitude num den : Nat) (leading : Int) : (count digits : Nat) → Decimal
  | 0, _ => ⟨0, 0⟩
  | count + 1, digits =>
    match neighbour? magnitude num den (leading + 1 - digits) with
    | some d => Decimal.trimmed 20 d
    | none => shortestFrom magnitude num den leading count (digits + 1)

/-- The shortest decimal that reads back as a positive magnitude; 17 digits always do. -/
def shortest (magnitude : Nat) : Decimal :=
  let num := steps magnitude
  shortestFrom magnitude num unit (leadingExponent num unit) 17 1

def zeros (n : Nat) : List Char := List.replicate n '0'

/-- Positional with a decimal point from `1e-5` up to below `1e16`, outside that range one digit,
the others behind the point, and a signed exponent. -/
def Decimal.text (d : Decimal) : String :=
  let digits := Nat.toDigits 10 d.digits
  let size : Int := digits.length
  let point := size + d.exponent
  if 0 ≤ d.exponent && point ≤ 16 then
    String.ofList (digits ++ zeros d.exponent.toNat) ++ ".0"
  else if 0 < point && point ≤ 16 then
    String.ofList (digits.take point.toNat ++ '.' :: digits.drop point.toNat)
  else if -5 < point && point ≤ 0 then
    "0." ++ String.ofList (zeros point.natAbs ++ digits)
  else
    let exponent := point - 1
    let mantissa := match digits with
      | [] => []
      | [c] => [c]
      | c :: rest => c :: '.' :: rest
    String.ofList mantissa ++ (if exponent < 0 then "e-" else "e+") ++ toString exponent.natAbs

def text (x : Binary64) : String :=
  (if x.isNegative then "-" else "") ++ if x.isZero then "0.0" else (shortest x.magnitude).text

end ServiceCall.Binary64
