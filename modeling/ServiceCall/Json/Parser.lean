import ServiceCall.Json.Cursor
import ServiceCall.Json.Value
import ServiceCall.Text.Blank

/-!
# Reading JSON

One value with blanks around it and nothing behind. Lists and objects may be nested 127 deep. A
number with a point or an exponent, or too long for 64 bits, is a 64-bit significand multiplied or
divided by a power of ten in floating point.
-/

namespace ServiceCall.Json

namespace Cursor

/-- The letters that must follow, one after the other. -/
def expectWord (c : Cursor) : List Char → Reading Cursor
  | [] => .ok c
  | letter :: letters =>
    match c.peek? with
    | none => .error (c.error .endInValue)
    | some b =>
      if b = letter.toUInt8 then c.skip.expectWord letters
      else .error (c.skip.error .expectedWord)

/-! ## Numbers -/

def isDigit (b : UInt8) : Bool := 0x30 ≤ b && b ≤ 0x39

def digitValue (b : UInt8) : Nat := b.toNat - 0x30

def isExponentMark (b : UInt8) : Bool := b = 'e'.toUInt8 || b = 'E'.toUInt8

def digits (c : Cursor) : List Nat × Cursor :=
  ((c.rest.takeWhile isDigit).map digitValue, c.skipWhile isDigit)

/-- Appends digits to a significand as long as it stays below `bound`: the significand reached
and how many digits it took. -/
def append (bound significand : Nat) : List Nat → Nat × Nat
  | [] => (significand, 0)
  | d :: rest =>
    let next := significand * 10 + d
    if next < bound then
      let (n, count) := append bound next rest
      (n, count + 1)
    else (significand, 0)

def significandBound : Nat := 1 <<< 64

def exponentBound : Nat := 1 <<< 31

/-- Divides by ten to the power `exponent`. Two steps bring a 64-bit significand to zero, so a
few rounds are enough. -/
def scaledDown : (rounds : Nat) → Binary64 → (exponent : Nat) → Binary64
  | 0, _, _ => .zero
  | rounds + 1, x, exponent =>
    if exponent ≤ 308 then x.div (.powerOfTen exponent)
    else if x.isZero then x
    else scaledDown rounds (x.div (.powerOfTen 308)) (exponent - 308)

/-- `significand` times ten to the power `exponent`, unless it is too large. -/
def scaled? (significand : Nat) (exponent : Int) : Option Binary64 :=
  let x := Binary64.ofNat significand
  if exponent < 0 then some (scaledDown 8 x exponent.natAbs)
  else if exponent ≤ 308 then
    let y := x.mul (.powerOfTen exponent.toNat)
    if y.isInfinite then none else some y
  else if x.isZero then some x
  else none

def signed (positive : Bool) (x : Binary64) : Binary64 := if positive then x else x.neg

def finishFloat (c : Cursor) (positive : Bool) (significand : Nat) (exponent : Int) :
    Reading (Binary64 × Cursor) :=
  match scaled? significand exponent with
  | some x => .ok (signed positive x, c)
  | none => .error (c.error .numberOutOfRange)

/-- The cursor stands at the mark of the exponent. -/
def exponentPart (c : Cursor) (positive : Bool) (significand : Nat) (start : Int) :
    Reading (Binary64 × Cursor) :=
  let c := c.skip
  let up := c.peek? ≠ some '-'.toUInt8
  let c := if c.peek? = some '+'.toUInt8 || c.peek? = some '-'.toUInt8 then c.skip else c
  match c.peek? with
  | none => .error (c.error .endInValue)
  | some b =>
    if !isDigit b then .error (c.skip.error .invalidNumber)
    else
      let (ds, rest) := c.digits
      let (exponent, count) := append exponentBound 0 ds
      if count = ds.length then
        finishFloat rest positive significand (if up then start + exponent else start - exponent)
      else if significand ≠ 0 && up then
        .error ((c.skips (count + 1)).error .numberOutOfRange)
      else .ok (signed positive .zero, rest)

def finishFraction (c : Cursor) (positive : Bool) (significand : Nat) (exponent : Int) :
    Reading (Binary64 × Cursor) :=
  if c.peek?.any isExponentMark then c.exponentPart positive significand exponent
  else c.finishFloat positive significand exponent

/-- The cursor stands at the decimal point. -/
def fractionPart (c : Cursor) (positive : Bool) (significand : Nat) (exponent : Int) :
    Reading (Binary64 × Cursor) :=
  let c := c.skip
  let (ds, rest) := c.digits
  if ds.isEmpty then
    .error (c.peekError (if c.rest.isEmpty then .endInValue else .invalidNumber))
  else
    -- Digits that no longer fit are of no account.
    let (n, count) := append significandBound significand ds
    rest.finishFraction positive n (exponent - count)

def float (r : Reading (Binary64 × Cursor)) : Reading (Number × Cursor) := do
  let (x, c) ← r
  return (.float x, c)

/-- What follows the digits in front of the point, `dropped` of which did not fit. -/
def numberTail (c : Cursor) (positive : Bool) (significand dropped : Nat) :
    Reading (Number × Cursor) :=
  if c.peek? = some '.'.toUInt8 then float (c.fractionPart positive significand dropped)
  else if c.peek?.any isExponentMark then float (c.exponentPart positive significand dropped)
  else if dropped ≠ 0 then float (c.finishFloat positive significand dropped)
  else
    let value : Int := if positive then significand else -significand
    match Integer.ofInt? value with
    | some n =>
      -- There is no negative zero among the whole numbers.
      if positive || significand ≠ 0 then .ok (.integer n, c)
      else .ok (.float (Binary64.zero).neg, c)
    | none => .ok (.float (signed positive (Binary64.ofNat significand)), c)

def number (c : Cursor) (positive : Bool) : Reading (Number × Cursor) :=
  match c.peek? with
  | none => .error (c.error .endInValue)
  | some b =>
    if b = '0'.toUInt8 then
      if c.skip.peek?.any isDigit then .error (c.skip.peekError .invalidNumber)
      else c.skip.numberTail positive 0 0
    else if isDigit b then
      let (ds, rest) := c.digits
      let (significand, count) := append significandBound 0 ds
      rest.numberTail positive significand (ds.length - count)
    else .error (c.skip.error .invalidNumber)

/-! ## Strings -/

def hexDigitValue? (b : UInt8) : Option Nat := Text.hexValue? (Char.ofNat b.toNat)

def codeUnit (c : Cursor) : Reading (Nat × Cursor) :=
  match c.rest with
  | a :: b :: d :: e :: _ =>
    let after := c.skips 4
    match hexDigitValue? a, hexDigitValue? b, hexDigitValue? d, hexDigitValue? e with
    | some a, some b, some d, some e => .ok (((a * 16 + b) * 16 + d) * 16 + e, after)
    | _, _, _, _ => .error (after.error .invalidEscape)
  | rest => .error ((c.skips rest.length).error .endInString)

def expectInEscape (c : Cursor) (letter : Char) : Reading Cursor :=
  match c.peek? with
  | none => .error (c.error .endInString)
  | some b =>
    if b = letter.toUInt8 then .ok c.skip else .error (c.skip.error .endOfEscape)

/-- The character behind `\u`; one above `U+FFFF` is written as two surrogates. -/
def escapedCodePoint (c : Cursor) : Reading (Bytes × Cursor) := do
  let (n, c) ← c.codeUnit
  if 0xDC00 ≤ n && n ≤ 0xDFFF then .error (c.error .loneSurrogate)
  else if n < 0xD800 || 0xDBFF < n then .ok (Utf8.encodeChar (Char.ofNat n), c)
  else
    let c ← c.expectInEscape '\\'
    let c ← c.expectInEscape 'u'
    let (low, c) ← c.codeUnit
    if low < 0xDC00 || 0xDFFF < low then .error (c.error .loneSurrogate)
    else
      .ok (Utf8.encodeChar (Char.ofNat ((n - 0xD800) * 1024 + (low - 0xDC00) + 0x10000)), c)

def shortEscape? (b : UInt8) : Option UInt8 :=
  if b = '"'.toUInt8 || b = '\\'.toUInt8 || b = '/'.toUInt8 then some b
  else if b = 'b'.toUInt8 then some 0x08
  else if b = 'f'.toUInt8 then some 0x0C
  else if b = 'n'.toUInt8 then some 0x0A
  else if b = 'r'.toUInt8 then some 0x0D
  else if b = 't'.toUInt8 then some 0x09
  else none

/-- The cursor stands behind the backslash. -/
def escaped (c : Cursor) : Reading (Bytes × Cursor) :=
  match c.peek? with
  | none => .error (c.error .endInString)
  | some b =>
    match shortEscape? b with
    | some b => .ok ([b], c.skip)
    | none =>
      if b = 'u'.toUInt8 then c.skip.escapedCodePoint
      else .error (c.skip.error .invalidEscape)

/-- The bytes of a string up to its closing quote, behind which the cursor ends. -/
def stringBytes : (fuel : Nat) → Cursor → Reading (Bytes × Cursor)
  | 0, c => .error (c.error .endInString)
  | fuel + 1, c =>
    match c.peek? with
    | none => .error (c.error .endInString)
    | some b =>
      if b = '"'.toUInt8 then .ok ([], c.skip)
      else if b = '\\'.toUInt8 then do
        let (bytes, c) ← c.skip.escaped
        let (more, c) ← stringBytes fuel c
        return (bytes ++ more, c)
      else if b < 0x20 then .error (c.skip.error .controlCharacter)
      else do
        let (more, c) ← stringBytes fuel c.skip
        return (b :: more, c)

/-- The cursor at the first byte of `c` that belongs to no character. Escapes are written in ASCII,
so a string is ill-formed where its written form is. -/
def illFormed (c : Cursor) : Cursor :=
  match Utf8.decode c.rest with
  | .ok _ => c
  | .error fault => c.skips fault.index

/-- The string whose opening quote has been read. -/
def string (c : Cursor) : Reading (String × Cursor) := do
  let (bytes, after) ← stringBytes (c.rest.length + 1) c
  match Utf8.decode? bytes with
  | some s => .ok (s, after)
  | none => .error (c.illFormed.peekError .invalidCodePoint)

/-! ## Lists and objects -/

/-- Whether another item of a list follows; the cursor then stands at it, else behind the
list's bracket. -/
def nextItem (c : Cursor) (first : Bool) : Reading (Bool × Cursor) :=
  let c := c.skipSpace
  match c.peek? with
  | none => .error (c.peekError .endInList)
  | some b =>
    if b = ']'.toUInt8 then .ok (false, c.skip)
    else if first then .ok (true, c)
    else if b = ','.toUInt8 then
      let c := c.skip.skipSpace
      match c.peek? with
      | none => .error (c.peekError .endInValue)
      | some b =>
        if b = ']'.toUInt8 then .error (c.peekError .trailingComma) else .ok (true, c)
    else .error (c.peekError .expectedCommaOrBracket)

/-- Whether another field of an object follows; the cursor then stands behind the opening quote
of its name, else behind the object's brace. -/
def nextField (c : Cursor) (first : Bool) : Reading (Bool × Cursor) :=
  let c := c.skipSpace
  match c.peek? with
  | none => .error (c.peekError .endInObject)
  | some b =>
    if b = '\x7d'.toUInt8 then .ok (false, c.skip)
    else if first then
      if b = '"'.toUInt8 then .ok (true, c.skip) else .error (c.peekError .keyNotString)
    else if b = ','.toUInt8 then
      let c := c.skip.skipSpace
      match c.peek? with
      | none => .error (c.peekError .endInValue)
      | some b =>
        if b = '"'.toUInt8 then .ok (true, c.skip)
        else if b = '\x7d'.toUInt8 then .error (c.peekError .trailingComma)
        else .error (c.peekError .keyNotString)
    else .error (c.peekError .expectedCommaOrBrace)

def colon (c : Cursor) : Reading Cursor :=
  let c := c.skipSpace
  match c.peek? with
  | none => .error (c.peekError .endInObject)
  | some b =>
    if b = ':'.toUInt8 then .ok c.skip else .error (c.peekError .expectedColon)

mutual

/-- One value; `room` more levels of lists and objects may be opened. -/
def value : (fuel room : Nat) → Cursor → Reading (Json × Cursor)
  | 0, _, c => .error (c.error .endInValue)
  | fuel + 1, room, c =>
    let c := c.skipSpace
    match c.peek? with
    | none => .error (c.peekError .endInValue)
    | some b =>
      if b = 'n'.toUInt8 then do
        return (.null, ← c.skip.expectWord ['u', 'l', 'l'])
      else if b = 't'.toUInt8 then do
        return (.bool true, ← c.skip.expectWord ['r', 'u', 'e'])
      else if b = 'f'.toUInt8 then do
        return (.bool false, ← c.skip.expectWord ['a', 'l', 's', 'e'])
      else if b = '-'.toUInt8 then do
        let (n, c) ← c.skip.number false
        return (.number n, c)
      else if isDigit b then do
        let (n, c) ← c.number true
        return (.number n, c)
      else if b = '"'.toUInt8 then do
        let (s, c) ← c.skip.string
        return (.string s, c)
      else if b = '['.toUInt8 then
        match room with
        | 0 => .error (c.peekError .tooDeep)
        | room + 1 => do
          let (items, c) ← itemsFrom fuel room true c.skip
          return (.array items, c)
      else if b = '\x7b'.toUInt8 then
        match room with
        | 0 => .error (c.peekError .tooDeep)
        | room + 1 => do
          let (fields, c) ← fieldsFrom fuel room true c.skip
          return (Json.ofFields fields, c)
      else .error (c.peekError .expectedValue)

def itemsFrom : (fuel room : Nat) → (first : Bool) → Cursor → Reading (List Json × Cursor)
  | 0, _, _, c => .error (c.error .endInList)
  | fuel + 1, room, first, c => do
    let (more, c) ← c.nextItem first
    if more then
      let (v, c) ← value fuel room c
      let (rest, c) ← itemsFrom fuel room false c
      return (v :: rest, c)
    else return ([], c)

def fieldsFrom : (fuel room : Nat) → (first : Bool) → Cursor →
    Reading (List (String × Json) × Cursor)
  | 0, _, _, c => .error (c.error .endInObject)
  | fuel + 1, room, first, c => do
    let (more, c) ← c.nextField first
    if more then
      let (name, c) ← c.string
      let c ← c.colon
      let (v, c) ← value fuel room c
      let (rest, c) ← fieldsFrom fuel room false c
      return ((name, v) :: rest, c)
    else return ([], c)

end

/-- Nothing but blanks may be left. -/
def finish (c : Cursor) : Reading Unit :=
  let c := c.skipSpace
  if c.rest.isEmpty then .ok () else .error (c.peekError .trailingCharacters)

/-- The depth to which lists and objects may be nested. -/
def maxDepth : Nat := 127

end Cursor

/-- The value that `bytes` spell. Every step consumes a byte, so their number bounds the steps. -/
def parse (bytes : Bytes) : Reading Json := do
  let (v, c) ← Cursor.value (2 * bytes.length + 2) Cursor.maxDepth (Cursor.ofBytes bytes)
  c.finish
  return v

end ServiceCall.Json
