import ServiceCall.Http.Framing
import ServiceCall.Http.Uri
import ServiceCall.Time.Duration

/-!
# Scripted peers

A client can be rehearsed without a network, against peers that follow a script. The script says
which names lead where, and what each request in turn is answered with.
-/

namespace ServiceCall.Rehearsal

/-! ## Replies -/

inductive Reply where
  /-- An answer; `missing` bytes more than there are get announced. -/
  | answer (status : Http.Status) (headers : List (String × Bytes)) (body : Bytes)
      (missing : Option Nat)
  /-- These bytes, and then the connection is closed. -/
  | raw (bytes : Bytes)
  | close
  | silence
  deriving DecidableEq, Repr

/-- A reply and the time that the peer takes to begin it. -/
structure ScriptedReply where
  delay : Duration
  reply : Reply
  deriving DecidableEq, Repr

/-- The bytes that a reply consists of, and whether the connection is closed behind them. -/
structure Transmission where
  bytes : Bytes
  closes : Bool
  deriving DecidableEq, Repr

namespace Reply

def crlf : Bytes := [0x0D, 0x0A]

def fieldLine (name : String) (value : Bytes) : Bytes :=
  Bytes.ofString name ++ Bytes.ofString ": " ++ value ++ crlf

/-- Whether a field tells that the connection will be closed. -/
def closing (field : String × Bytes) : Bool :=
  Text.lower field.1 = "connection" &&
    (Http.listMembers (Utf8.decodeLossy field.2)).contains "close"

/-- An answer as it is written. Only a status without a body does without `Content-Length`. What
there is of a body is left out in answer to a request with method `HEAD`. -/
def answerBytes (method : Http.Method) (status : Http.Status) (headers : List (String × Bytes))
    (body : Bytes) (missing : Nat) : Bytes :=
  let bodiless := status.code = 204 || status.code = 304
  let announced := Bytes.ofString (toString (body.length + missing))
  Bytes.ofString ("HTTP/1.1 " ++ status.text) ++ crlf ++
    headers.flatMap (fun (name, value) => fieldLine name value) ++
    (if bodiless then [] else fieldLine "content-length" announced) ++ crlf ++
    (if method = .head then [] else body)

/-- What is sent in reply to a request with this method, unless it is nothing ever. -/
def transmission? (r : Reply) (method : Http.Method) : Option Transmission :=
  match r with
  | .answer status headers body missing =>
    some ⟨answerBytes method status headers body (missing.getD 0),
      missing.isSome || headers.any closing⟩
  | .raw bytes => some ⟨bytes, true⟩
  | .close => some ⟨[], true⟩
  | .silence => none

end Reply

/-! ## Names -/

/-- What is reached under a name. -/
inductive Place where
  | plain
  /-- A peer that talks behind keys agreed on; its certificate may be for another name. -/
  | secure (trusted : Bool)
  | nobody
  deriving DecidableEq, Repr

structure Network where
  places : List (String × Place)
  deriving DecidableEq, Repr

namespace Network

def place (n : Network) (host : String) : Place :=
  (n.places.lookup (Text.lower host)).getD .nobody

/-- Whether a connection to where an address leads comes about. -/
def connects (n : Network) (uri : Http.Uri) : Bool :=
  match n.place uri.host with
  | .plain => !uri.isSecure
  | .secure trusted => !uri.isSecure || trusted
  | .nobody => false

/-- Whether a connection in the clear ends at a peer that expects keys. -/
def misunderstands (n : Network) (uri : Http.Uri) : Bool :=
  match n.place uri.host with
  | .secure _ => !uri.isSecure
  | _ => false

end Network

end ServiceCall.Rehearsal
