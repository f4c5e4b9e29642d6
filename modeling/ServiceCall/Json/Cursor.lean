import ServiceCall.Text.Utf8

/-!
# Reading position

A cursor is what is left of a JSON text together with the line and column reached. Every fault
is reported at the cursor, or one byte further when the byte at the cursor is to blame.
-/

namespace ServiceCall.Json

structure Cursor where
  line : Nat
  column : Nat
  rest : Bytes
  deriving DecidableEq, Repr

inductive Problem where
  | endInList
  | endInObject
  | endInString
  | endInValue
  | expectedColon
  | expectedCommaOrBracket
  | expectedCommaOrBrace
  | expectedWord
  | expectedValue
  | invalidEscape
  | invalidNumber
  | numberOutOfRange
  | invalidCodePoint
  | controlCharacter
  | keyNotString
  | loneSurrogate
  | endOfEscape
  | trailingComma
  | trailingCharacters
  | tooDeep
  /-- The text is JSON, but not of the shape that is asked for. -/
  | mismatch (message : String)
  deriving DecidableEq, Repr

def Problem.message : Problem → String
  | .endInList => "EOF while parsing a list"
  | .endInObject => "EOF while parsing an object"
  | .endInString => "EOF while parsing a string"
  | .endInValue => "EOF while parsing a value"
  | .expectedColon => "expected `:`"
  | .expectedCommaOrBracket => "expected `,` or `]`"
  | .expectedCommaOrBrace => "expected `,` or `\x7d`"
  | .expectedWord => "expected ident"
  | .expectedValue => "expected value"
  | .invalidEscape => "invalid escape"
  | .invalidNumber => "invalid number"
  | .numberOutOfRange => "number out of range"
  | .invalidCodePoint => "invalid unicode code point"
  | .controlCharacter => "control character (\\u0000-\\u001F) found while parsing a string"
  | .keyNotString => "key must be a string"
  | .loneSurrogate => "lone leading surrogate in hex escape"
  | .endOfEscape => "unexpected end of hex escape"
  | .trailingComma => "trailing comma"
  | .trailingCharacters => "trailing characters"
  | .tooDeep => "recursion limit exceeded"
  | .mismatch message => message

structure ReadError where
  problem : Problem
  line : Nat
  column : Nat
  deriving DecidableEq, Repr

def ReadError.message (e : ReadError) : String :=
  e.problem.message ++ " at line " ++ toString e.line ++ " column " ++ toString e.column

abbrev Reading := Except ReadError

namespace Cursor

def ofBytes (bytes : Bytes) : Cursor := ⟨1, 0, bytes⟩

def peek? (c : Cursor) : Option UInt8 := c.rest.head?

/-- The cursor behind the next byte; at the end it stays. -/
def skip (c : Cursor) : Cursor :=
  match c.rest with
  | [] => c
  | b :: rest => if b = 0x0A then ⟨c.line + 1, 0, rest⟩ else ⟨c.line, c.column + 1, rest⟩

def skips : Nat → Cursor → Cursor
  | 0, c => c
  | n + 1, c => skips n c.skip

def error (c : Cursor) (p : Problem) : ReadError := ⟨p, c.line, c.column⟩

/-- A problem with the byte at the cursor. -/
def peekError (c : Cursor) (p : Problem) : ReadError := c.skip.error p

def isSpace (b : UInt8) : Bool := b = 0x20 || b = 0x0A || b = 0x09 || b = 0x0D

def skipWhileFrom (p : UInt8 → Bool) (line column : Nat) : Bytes → Cursor
  | [] => ⟨line, column, []⟩
  | b :: rest =>
    if p b then
      if b = 0x0A then skipWhileFrom p (line + 1) 0 rest
      else skipWhileFrom p line (column + 1) rest
    else ⟨line, column, b :: rest⟩

def skipWhile (p : UInt8 → Bool) (c : Cursor) : Cursor := skipWhileFrom p c.line c.column c.rest

def skipSpace (c : Cursor) : Cursor := c.skipWhile isSpace

end Cursor

end ServiceCall.Json
