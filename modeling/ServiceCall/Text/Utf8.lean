/-!
# UTF-8

Text as bytes and bytes as text. A byte sequence that is not UTF-8 is either refused, with the
place where it goes wrong, or read with a replacement character for every ill-formed stretch.
-/

namespace ServiceCall

/-- What travels in a header value or a body. -/
abbrev Bytes := List UInt8

namespace Utf8

/-! ## Writing -/

def encodeChar (c : Char) : Bytes :=
  let n := c.toNat
  if n < 0x80 then [UInt8.ofNat n]
  else if n < 0x800 then [UInt8.ofNat (0xC0 + n / 64), UInt8.ofNat (0x80 + n % 64)]
  else if n < 0x10000 then
    [UInt8.ofNat (0xE0 + n / 4096), UInt8.ofNat (0x80 + n / 64 % 64), UInt8.ofNat (0x80 + n % 64)]
  else
    [UInt8.ofNat (0xF0 + n / 262144), UInt8.ofNat (0x80 + n / 4096 % 64),
      UInt8.ofNat (0x80 + n / 64 % 64), UInt8.ofNat (0x80 + n % 64)]

def encodeChars (cs : List Char) : Bytes := cs.flatMap encodeChar

def encode (s : String) : Bytes := encodeChars s.toList

/-! ## Reading one character -/

/-- What stands at the front of a byte sequence. -/
inductive Front where
  /-- A character, and how many bytes after the first one it takes. -/
  | char (c : Char) (more : Nat)
  /-- Bytes that begin no character; `size` of them are skipped together. -/
  | invalid (size : Nat)
  /-- The beginning of a character that the end of the input cuts off. -/
  | incomplete
  deriving DecidableEq, Repr

def isTail (b : UInt8) : Bool := 0x80 ≤ b && b ≤ 0xBF

/-- The bytes that may follow the first byte of a three-byte sequence. -/
def secondOfThree (a b : UInt8) : Bool :=
  if a = 0xE0 then 0xA0 ≤ b && b ≤ 0xBF
  else if a = 0xED then 0x80 ≤ b && b ≤ 0x9F
  else isTail b

/-- The bytes that may follow the first byte of a four-byte sequence. -/
def secondOfFour (a b : UInt8) : Bool :=
  if a = 0xF0 then 0x90 ≤ b && b ≤ 0xBF
  else if a = 0xF4 then 0x80 ≤ b && b ≤ 0x8F
  else isTail b

def low (b : UInt8) : Nat := b.toNat % 64

/-- Reads the front of `a :: rest`. -/
def front (a : UInt8) (rest : Bytes) : Front :=
  if a < 0x80 then .char (Char.ofNat a.toNat) 0
  else if a < 0xC2 then .invalid 1
  else if a < 0xE0 then
    match rest with
    | [] => .incomplete
    | b :: _ =>
      if isTail b then .char (Char.ofNat (a.toNat % 32 * 64 + low b)) 1 else .invalid 1
  else if a < 0xF0 then
    match rest with
    | [] => .incomplete
    | b :: r =>
      if secondOfThree a b then
        match r with
        | [] => .incomplete
        | c :: _ =>
          if isTail c then .char (Char.ofNat (a.toNat % 16 * 4096 + low b * 64 + low c)) 2
          else .invalid 2
      else .invalid 1
  else if a < 0xF5 then
    match rest with
    | [] => .incomplete
    | b :: r =>
      if secondOfFour a b then
        match r with
        | [] => .incomplete
        | c :: r' =>
          if isTail c then
            match r' with
            | [] => .incomplete
            | d :: _ =>
              if isTail d then
                .char (Char.ofNat (a.toNat % 8 * 262144 + low b * 4096 + low c * 64 + low d)) 3
              else .invalid 3
          else .invalid 2
      else .invalid 1
  else .invalid 1

/-! ## Reading a whole sequence -/

/-- Where a byte sequence stops being UTF-8. -/
inductive Fault where
  | invalid (size index : Nat)
  | incomplete (index : Nat)
  deriving DecidableEq, Repr

def Fault.index : Fault → Nat
  | .invalid _ index => index
  | .incomplete index => index

def Fault.message : Fault → String
  | .invalid size index =>
    "invalid utf-8 sequence of " ++ toString size ++ " bytes from index " ++ toString index
  | .incomplete index => "incomplete utf-8 byte sequence from index " ++ toString index

/-- The characters of `bytes`, the first of which stands at `index`. -/
def decodeFrom (index : Nat) (bytes : Bytes) : Except Fault (List Char) :=
  match bytes with
  | [] => .ok []
  | a :: rest =>
    match front a rest with
    | .char c more => do
      let cs ← decodeFrom (index + 1 + more) (rest.drop more)
      return c :: cs
    | .invalid size => .error (.invalid size index)
    | .incomplete => .error (.incomplete index)
termination_by bytes.length
decreasing_by simp only [List.length_drop, List.length_cons]; omega

/-- The text that `bytes` spell, or the first place where they spell none. -/
def decode (bytes : Bytes) : Except Fault String := do
  return String.ofList (← decodeFrom 0 bytes)

def decode? (bytes : Bytes) : Option String := (decode bytes).toOption

def replacement : Char := '\ufffd'

/-- Reads with one replacement character for every stretch that spells nothing. -/
def decodeLossyChars (bytes : Bytes) : List Char :=
  match bytes with
  | [] => []
  | a :: rest =>
    match front a rest with
    | .char c more => c :: decodeLossyChars (rest.drop more)
    | .invalid size => replacement :: decodeLossyChars (rest.drop (size - 1))
    | .incomplete => [replacement]
termination_by bytes.length
decreasing_by all_goals simp only [List.length_drop, List.length_cons]; omega

def decodeLossy (bytes : Bytes) : String := String.ofList (decodeLossyChars bytes)

end Utf8

def Bytes.ofString (s : String) : Bytes := Utf8.encode s

/-- A visible ASCII character, a space or a tab. -/
def isVisibleByte (b : UInt8) : Bool := (0x20 ≤ b && b < 0x7F) || b = 0x09

/-- The text of a header value, if it is written in visible ASCII alone. -/
def Bytes.visibleText? (bytes : Bytes) : Option String :=
  if bytes.all isVisibleByte then
    some (String.ofList (bytes.map fun b => Char.ofNat b.toNat))
  else none

end ServiceCall
