import ServiceCall.Http.Headers
import ServiceCall.Http.Status

/-!
# Heads of answers

The first line and the header lines of an answer as they come in. Reading them either succeeds,
or finds that the bytes so far are too few, or that no further byte would help.
-/

namespace ServiceCall.Http

/-- Why nothing can be read from the bytes that have come so far. -/
inductive Halt where
  | incomplete
  | malformed
  deriving DecidableEq, Repr

abbrev Intake := Except Halt

inductive Version where
  | http10
  | http11
  deriving DecidableEq, Repr

structure Head where
  version : Version
  status : Status
  headers : Headers
  deriving DecidableEq, Repr

namespace Head

def lineFeed : UInt8 := 0x0A

def carriageReturn : UInt8 := 0x0D

/-- A line without the line feed at its end, and without a carriage return before that. -/
def line (bytes : Bytes) : Intake (Bytes × Bytes) :=
  let (line, rest) := bytes.span (· ≠ lineFeed)
  match rest with
  | [] => .error .incomplete
  | _ :: rest =>
    if line.getLast? = some carriageReturn then .ok (line.dropLast, rest) else .ok (line, rest)

def chars (bytes : Bytes) : List Char := bytes.map fun b => Char.ofNat b.toNat

def version? (cs : List Char) : Option Version :=
  if cs = "HTTP/1.0".toList then some .http10
  else if cs = "HTTP/1.1".toList then some .http11
  else none

/-- Version, three digits, and a phrase that has no meaning. -/
def statusLine? (line : Bytes) : Option (Version × Status) := do
  let cs := chars line
  let version ← version? (cs.take 8)
  let code ← Text.digitsNumber? ((cs.drop 9).take 3)
  let status ← Status.ofNat? code
  let phrase := line.drop 12
  if cs[8]? = some ' ' && (phrase.isEmpty || phrase.head? = some 0x20) &&
      phrase.all isValueByte then
    some (version, status)
  else none

def isPadding (c : UInt8) : Bool := c = 0x20 || c = 0x09

/-- A name, directly behind it a colon, and a value without the padding around it. -/
def headerLine? (line : Bytes) : Option (HeaderName × HeaderValue) := do
  let (name, rest) := line.span (· ≠ 0x3A)
  let name ← HeaderName.ofString? (String.ofList (chars name))
  if rest.isEmpty then none
  let value := (rest.drop 1).dropWhile isPadding
  let value ← HeaderValue.ofBytes? (value.reverse.dropWhile isPadding).reverse
  return (name, value)

def maxHeaders : Nat := 100

/-- Header lines up to an empty line, at most `room` of them. -/
def headerLines : (room : Nat) → Bytes → Intake (List (HeaderName × HeaderValue) × Bytes)
  | room, bytes => do
    let (text, rest) ← line bytes
    if text.isEmpty then return ([], rest)
    match room, headerLine? text with
    | room + 1, some field =>
      let (fields, rest) ← headerLines room rest
      return (field :: fields, rest)
    | _, _ => .error .malformed

/-- What every head begins with. -/
def opening : Bytes := [0x48, 0x54, 0x54, 0x50, 0x2F, 0x31, 0x2E]

/-- One head; empty lines in front of it are skipped. -/
def readOne (bytes : Bytes) : Intake (Head × Bytes) := do
  let bytes := bytes.dropWhile fun b => b = carriageReturn || b = lineFeed
  if bytes.take opening.length ≠ opening.take bytes.length then .error .malformed
  let (text, rest) ← line bytes
  match statusLine? text with
  | none => .error .malformed
  | some (version, status) =>
    let (fields, rest) ← headerLines maxHeaders rest
    return (⟨version, status, ⟨fields⟩⟩, rest)

/-- A status that only announces an answer. -/
def isInterim (status : Status) : Bool := status.code < 200 && status.code ≠ 101

/-- The first head that is no interim one, of at most `room` heads. -/
def readFrom : (room : Nat) → Bytes → Intake (Head × Bytes)
  | 0, _ => .error .incomplete
  | room + 1, bytes => do
    let (head, rest) ← readOne bytes
    if isInterim head.status then readFrom room rest else return (head, rest)

def read (bytes : Bytes) : Intake (Head × Bytes) := readFrom (bytes.length + 1) bytes

/-- Whether one `Connection` line keeps the connection that the lines before it kept, or takes up
one that they gave up. -/
def keptAfter (kept : Bool) (line : HeaderValue) : Bool :=
  let members := (line.text?.map listMembers).getD []
  if kept then !members.contains "close" else members.contains "keep-alive"

/-- Whether the connection may serve another request after this answer. Without a word about it,
one of version 1.1 may and one of version 1.0 may not. -/
def keepsConnection (h : Head) : Bool :=
  (h.headers.getAll .connection).foldl keptAfter (h.version = .http11)

end Head

end ServiceCall.Http
