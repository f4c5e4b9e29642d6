import ServiceCall.Call.Journal
import ServiceCall.Call.Response
import ServiceCall.Client.Target

/-!
# Exchanges

One request as it is sent, and what its answer means for the attempt that sent it.
-/

namespace ServiceCall

/-- A request as it is handed to the transport. -/
structure PhysicalRequest where
  method : Http.Method
  uri : Http.Uri
  headers : Http.Headers
  body : Bytes
  deriving DecidableEq, Repr

/-- An answer whose body has been read to its end. -/
structure Answer where
  status : Http.Status
  headers : Http.Headers
  body : Bytes
  deriving DecidableEq, Repr

namespace Client

/-- The headers of the request in place of the client's, and the trace of the attempt. -/
def sentHeaders (c : Client) (r : Request) (trace : TraceContext) : Http.Headers :=
  let headers := c.defaultHeaders.overlay r.headers
  if r.propagate then headers.insert .traceparent (.ofVisible trace.text) else headers

def physicalRequest (c : Client) (r : Request) (t : Target) (trace : TraceContext) :
    PhysicalRequest where
  method := r.site.method
  uri := t.uri
  headers := c.sentHeaders r trace
  body := r.body.getD []

/-- What the attempt of this number makes of an answer. The decoder is asked only if the status
carries a payload. -/
def outcome {α : Type} (c : Client) (r : Request) (decode : Decoder α) (number : Nat)
    (answer : Answer) (connection : Option ConnRecord) : Except CallError (Response α) :=
  if answer.status.toClass = .noContent then .error (.noContent r.site number)
  else if r.decodes answer.status then
    match decode answer.status answer.body with
    | .ok data =>
      .ok {
        data
        body := answer.body
        status := answer.status
        headers := answer.headers
        latency := .zero
        attempts := number
        connection }
    | .error reason =>
      .error (.undecodable r.site answer.status number (Utf8.decodeLossy answer.body) reason)
  else
    .error (.http {
      site := r.site
      status := answer.status
      attempts := number
      concluded := false
      severity := c.expectedStatuses.severity answer.status false
      body := Utf8.decodeLossy answer.body
      headers := answer.headers })

def outcomeLog {α : Type} : Except CallError (Response α) → Journal
  | .ok _ => .empty
  | .error (.undecodable ..) => .line .error "Failed to decode response"
  | .error (.http failure) =>
    if failure.status.toClass = .retryable then .line .warn "Server error (5xx)"
    else .line .debug "Request rejected"
  | .error _ => .empty

end Client

end ServiceCall
