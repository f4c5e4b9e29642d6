import ServiceCall.Number.Binary64

/-!
# JSON values

An object keeps its fields sorted by name, each name once. Whole numbers of 64 bits, signed or
unsigned, are exact; every other number is in floating point.
-/

namespace ServiceCall

/-- A whole number that fits 64 bits, signed or unsigned. -/
structure Json.Integer where
  value : Int
  lower : -9223372036854775808 ≤ value := by decide
  upper : value ≤ 18446744073709551615 := by decide
  deriving DecidableEq, Repr

inductive Json.Number where
  | integer (n : Json.Integer)
  | float (x : Binary64)
  deriving DecidableEq, Repr

inductive Json where
  | null
  | bool (b : Bool)
  | number (n : Json.Number)
  | string (s : String)
  | array (items : List Json)
  | object (fields : List (String × Json))
  deriving Repr, Inhabited

namespace Json

def Integer.ofInt? (n : Int) : Option Integer :=
  if h : -9223372036854775808 ≤ n ∧ n ≤ 18446744073709551615 then some ⟨n, h.1, h.2⟩ else none

/-- A whole number, in floating point if it does not fit 64 bits. -/
def ofInt (n : Int) : Json :=
  match Integer.ofInt? n with
  | some n => .number (.integer n)
  | none => .number (.float (Binary64.ofInt n))

def ofNat (n : Nat) : Json := ofInt n

/-- Puts a field at its place in the order of names; a field of that name is replaced. -/
def insertField (name : String) (value : Json) :
    List (String × Json) → List (String × Json)
  | [] => [(name, value)]
  | (n, v) :: rest =>
    if name = n then (name, value) :: rest
    else if name < n then (name, value) :: (n, v) :: rest
    else (n, v) :: insertField name value rest

/-- The object of these fields; of two with one name the later one counts. -/
def ofFields (fields : List (String × Json)) : Json :=
  .object (fields.foldl (fun acc (n, v) => insertField n v acc) [])

def field? (name : String) : Json → Option Json
  | .object fields => fields.lookup name
  | _ => none

end Json

end ServiceCall
