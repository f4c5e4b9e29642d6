import ServiceCall.Http.Head

/-!
# Bodies of answers

Where the body of an answer ends: at once, after a given number of bytes, with its last chunk, or
with the connection.
-/

namespace ServiceCall.Http

inductive Framing where
  | empty
  | sized (length : Nat)
  | chunked
  | untilClose
  deriving DecidableEq, Repr

namespace Framing

/-! ## Which framing -/

/-- The greatest length that a body can have. -/
def maxLength : Nat := 18446744073709551613

def lengths? (value : HeaderValue) : Option (List Nat) := do
  ((← value.text?).toList |> Text.splitChars ',').mapM fun member =>
    (Text.digitsNumber? (Text.trimChars member)).filter (· < 18446744073709551616)

/-- The one length that all `Content-Length` lines give. -/
def length? (h : Headers) : Option Nat := do
  match (← (h.getAll .contentLength).mapM lengths?).flatten with
  | [] => none
  | n :: rest => if rest.all (· = n) && n ≤ maxLength then some n else none

/-- Whether chunking is the last of the transfer codings. -/
def endsChunked (h : Headers) : Bool :=
  ((h.getAll .transferEncoding).getLast?.bind HeaderValue.text?).any fun line =>
    (listMembers line).getLast? = some "chunked"

/-- The framing of the answer to a request with this method. -/
def ofHead (method : Method) (h : Head) : Intake Framing :=
  if h.status.code = 101 || h.status.code = 204 || h.status.code = 304 || method = .head then
    .ok .empty
  else if method.name = "CONNECT" && h.status.isSuccess then .ok .empty
  else if h.headers.contains .transferEncoding then
    if h.version = .http10 then .error .malformed
    else .ok (if endsChunked h.headers then .chunked else .untilClose)
  else if h.headers.contains .contentLength then
    match length? h.headers with
    | some n => .ok (.sized n)
    | none => .error .malformed
  else .ok .untilClose

/-! ## Reading -/

def hexDigit? (b : UInt8) : Option Nat := Text.hexValue? (Char.ofNat b.toNat)

/-- The size of a chunk: hexadecimal digits, then padding or an extension, which has no
meaning. -/
def chunkSize? (line : Bytes) : Option Nat := do
  let digits := line.takeWhile fun b => (hexDigit? b).isSome
  let behind := (line.drop digits.length).dropWhile Head.isPadding
  if digits.isEmpty || !(behind.isEmpty || behind.head? = some 0x3B) then none
  (Text.hexNumber? (Head.chars digits)).filter (· < 18446744073709551616)

/-- Chunks up to the last one, which is empty, and the trailing header lines behind it. -/
def chunks : (fuel : Nat) → Bytes → Intake (Bytes × Bytes)
  | 0, _ => .error .incomplete
  | fuel + 1, bytes => do
    let (line, rest) ← Head.line bytes
    match chunkSize? line with
    | none => .error .malformed
    | some 0 =>
      let (_, rest) ← Head.headerLines Head.maxHeaders rest
      return ([], rest)
    | some size =>
      if rest.length < size then .error .incomplete
      match rest.drop size with
      | 0x0D :: 0x0A :: behind =>
        let (more, behind) ← chunks fuel behind
        return (rest.take size ++ more, behind)
      | [] | [0x0D] => .error .incomplete
      | _ => .error .malformed

/-- The body in front of `bytes`; `closed` says that no more bytes will come. -/
def read (f : Framing) (closed : Bool) (bytes : Bytes) : Intake (Bytes × Bytes) :=
  match f with
  | .empty => .ok ([], bytes)
  | .sized n =>
    if bytes.length < n then .error .incomplete else .ok (bytes.take n, bytes.drop n)
  | .chunked => chunks (bytes.length + 1) bytes
  | .untilClose => if closed then .ok (bytes, []) else .error .incomplete

end Framing

end ServiceCall.Http
