import ServiceCall.Conn.Record
import ServiceCall.Http.Headers
import ServiceCall.Http.Status
import ServiceCall.Json.Shape

/-!
# Responses and decoders

What a call that succeeds returns, and how the body of an answer becomes its payload.
-/

namespace ServiceCall

structure Response (α : Type) where
  data : α
  body : Bytes
  status : Http.Status
  headers : Http.Headers
  /-- From the beginning of the call to its end. -/
  latency : Duration
  attempts : Nat
  /-- How the last attempt got its connection. -/
  connection : Option ConnRecord

namespace Response

def wasRetried {α : Type} (r : Response α) : Bool := r.attempts > 1

/-- The first value of a header as text. -/
def header? {α : Type} (r : Response α) (name : String) : Option String := do
  (← r.headers.get? (← Http.HeaderName.ofString? name)).text?

def bodyText {α : Type} (r : Response α) : String := Utf8.decodeLossy r.body

end Response

/-- Turns status and body of an answer into a payload, or says why there is none. -/
abbrev Decoder (α : Type) := Http.Status → Bytes → Except String α

namespace Decoder

def map {α β : Type} (f : α → β) (d : Decoder α) : Decoder β := fun status body =>
  (d status body).map f

def json : Decoder Json := fun _ body => (Json.parse body).mapError (·.message)

def shaped (shape : Json.Shape) : Decoder Json := fun _ body =>
  (Json.parseAs shape body).mapError (·.message)

def text : Decoder String := fun _ body => (Utf8.decode body).mapError (·.message)

def bytes : Decoder Bytes := fun _ body => .ok body

def ignore : Decoder Unit := fun _ _ => .ok ()

end Decoder

end ServiceCall
