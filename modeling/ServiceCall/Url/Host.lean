import ServiceCall.Url.Percent

/-!
# Hosts

A host is a domain name, an IPv4 address or an IPv6 address. Where a scheme has hosts of the
internet, a name whose last label is a number has to be an IPv4 address.
-/

namespace ServiceCall.Url

inductive Problem where
  | emptyHost
  | internationalName
  | port
  | ipv4
  | ipv6
  | domainCharacter
  | relative
  deriving DecidableEq, Repr

def Problem.message : Problem → String
  | .emptyHost => "empty host"
  | .internationalName => "invalid international domain name"
  | .port => "invalid port number"
  | .ipv4 => "invalid IPv4 address"
  | .ipv6 => "invalid IPv6 address"
  | .domainCharacter => "invalid domain character"
  | .relative => "relative URL without a base"

inductive Host where
  | empty
  | name (text : String)
  | ipv4 (address : Nat)
  | ipv6 (pieces : List Nat)
  deriving DecidableEq, Repr, Inhabited

/-! ## IPv4 -/

/-- What a part of an IPv4 address spells: a number, or one that no address could hold. -/
inductive Ipv4Part where
  | number (n : Nat)
  | tooLarge
  deriving DecidableEq, Repr

def digitsIn? (base : Nat) (cs : List Char) : Option Nat :=
  cs.foldl (fun acc c => do
    let n ← acc
    let d ← Text.hexValue? c
    if d < base then some (n * base + d) else none) (some 0)

/-- A part in decimal, with a leading zero in octal, behind `0x` in hexadecimal. -/
def ipv4Part? (cs : List Char) : Option Ipv4Part :=
  let number (base : Nat) (digits : List Char) : Option Ipv4Part :=
    (digitsIn? base digits).map fun n => if n < 4294967296 then .number n else .tooLarge
  match cs with
  | [] => none
  | '0' :: 'x' :: digits => number 16 digits
  | '0' :: 'X' :: digits => number 16 digits
  | '0' :: d :: digits => number 8 (d :: digits)
  | digits => number 10 digits

def dropLastIfEmpty (parts : List (List Char)) : List (List Char) :=
  if parts.getLast? = some [] then parts.dropLast else parts

def endsInNumber (cs : List Char) : Bool :=
  match (dropLastIfEmpty (Text.splitChars '.' cs)).getLast? with
  | none => false
  | some last => (!last.isEmpty && last.all Char.isDigit) || (ipv4Part? last).isSome

/-- The parts before the last give a byte each, the last one all that is left. -/
def parseIpv4 (cs : List Char) : Except Problem Nat := do
  let parts := dropLastIfEmpty (Text.splitChars '.' cs)
  if parts.length > 4 then .error .ipv4
  let numbers ← parts.mapM fun part =>
    match ipv4Part? part with
    | some (.number n) => Except.ok n
    | _ => .error .ipv4
  let leading := numbers.dropLast
  let last := numbers.getLast?.getD 0
  if last ≥ 1 <<< (8 * (4 - leading.length)) || leading.any (· > 255) then .error .ipv4
  return leading.zipIdx.foldl (fun acc (n, i) => acc + n <<< (8 * (3 - i))) last

def ipv4Text (address : Nat) : String :=
  toString (address / 16777216) ++ "." ++ toString (address / 65536 % 256) ++ "." ++
    toString (address / 256 % 256) ++ "." ++ toString (address % 256)

/-- A byte in decimal digits, without leading zeros. -/
def decimalByte? (digits : List Char) : Option Nat :=
  match digits with
  | '0' :: _ :: _ => none
  | _ => (Text.digitsNumber? digits).filter (· ≤ 255)

/-! ## IPv6 -/

/-- The pieces read so far, and where the two colons stood. -/
structure Ipv6Scan where
  pieces : List Nat
  gap : Option Nat

/-- Four decimal bytes behind the pieces, as two more pieces. -/
def ipv6Tail (scan : Ipv6Scan) (cs : List Char) : Except Problem Ipv6Scan :=
  match (Text.splitChars '.' cs).mapM decimalByte? with
  | some [a, b, c, d] =>
    if scan.pieces.length > 6 then .error .ipv6
    else .ok { scan with pieces := scan.pieces ++ [a * 256 + b, c * 256 + d] }
  | _ => .error .ipv6

def ipv6Pieces : (fuel : Nat) → Ipv6Scan → List Char → Except Problem Ipv6Scan
  | 0, _, _ => .error .ipv6
  | _ + 1, scan, [] => .ok scan
  | fuel + 1, scan, c :: cs =>
    if scan.pieces.length = 8 then .error .ipv6
    else if c = ':' then
      if scan.gap.isSome then .error .ipv6
      else
        let pieces := scan.pieces ++ [0]
        ipv6Pieces fuel ⟨pieces, some pieces.length⟩ cs
    else
      let digits := ((c :: cs).take 4).takeWhile fun c => (Text.hexValue? c).isSome
      let rest := (c :: cs).drop digits.length
      let next := { scan with pieces := scan.pieces ++ [(Text.hexNumber? digits).getD 0] }
      match rest with
      | [] => .ok next
      | '.' :: _ => if digits.isEmpty then .error .ipv6 else ipv6Tail scan (c :: cs)
      | ':' :: more => if more.isEmpty then .error .ipv6 else ipv6Pieces fuel next more
      | _ => .error .ipv6

def parseIpv6 (cs : List Char) : Except Problem (List Nat) := do
  let scan ← match cs with
    | [] | [_] => .error .ipv6
    | ':' :: ':' :: rest => ipv6Pieces (rest.length + 1) ⟨[0], some 1⟩ rest
    | ':' :: _ => .error .ipv6
    | _ => ipv6Pieces (cs.length + 1) ⟨[], none⟩ cs
  match scan.gap with
  | some gap =>
    return scan.pieces.take gap ++ List.replicate (8 - scan.pieces.length) 0 ++
      scan.pieces.drop gap
  | none => if scan.pieces.length = 8 then return scan.pieces else .error .ipv6

def zeroRun (pieces : List Nat) : Nat := (pieces.takeWhile (· = 0)).length

/-- The first longest run of at least two zero pieces: where it begins and its length. -/
def longestZeroRun (pieces : List Nat) : Option (Nat × Nat) :=
  (List.range pieces.length).foldl (fun best i =>
    let n := zeroRun (pieces.drop i)
    if n ≥ 2 && best.all (fun (_, m) => m < n) then some (i, n) else best) none

def joinedPieces (pieces : List Nat) : String :=
  ":".intercalate (pieces.map Text.hex)

def ipv6Text (pieces : List Nat) : String :=
  match longestZeroRun pieces with
  | some (i, n) => joinedPieces (pieces.take i) ++ "::" ++ joinedPieces (pieces.drop (i + n))
  | none => joinedPieces pieces

/-! ## Names -/

def isForbiddenInDomain (c : Char) : Bool :=
  c.toNat ≤ 0x20 || c.toNat = 0x7F || "#/:<>?@[\\]^|%".toList.contains c

def isForbiddenInHost (c : Char) : Bool :=
  "\x00\t\n\r #/:<>?@[\\]^|".toList.contains c

/-- The host between brackets, if the text begins with one. -/
def bracketed? (cs : List Char) : Option (Except Problem Host) :=
  match cs with
  | '[' :: rest =>
    some (if rest.getLast? = some ']' then (parseIpv6 rest.dropLast).map .ipv6
      else .error .ipv6)
  | _ => none

/-- A host of a scheme whose hosts are not of the internet. -/
def parseOpaqueHost (cs : List Char) : Except Problem Host :=
  match bracketed? cs with
  | some host => host
  | none =>
    if cs.any isForbiddenInHost then .error .domainCharacter
    else if cs.isEmpty then .ok .empty
    else .ok (.name (String.ofList (encode isControl cs)))

def Host.text : Host → String
  | .empty => ""
  | .name s => s
  | .ipv4 address => ipv4Text address
  | .ipv6 pieces => "[" ++ ipv6Text pieces ++ "]"

end ServiceCall.Url
