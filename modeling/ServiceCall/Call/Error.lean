import ServiceCall.Call.Severity
import ServiceCall.Http.Headers
import ServiceCall.Time.Duration
import ServiceCall.Url.Host

/-!
# Errors of a call

How a call can fail. Every error says whether another attempt makes sense, how severe it is, and
what is known of the response and of the attempts made.
-/

namespace ServiceCall

/-- The method and the route template that an error names. -/
structure Site where
  method : Http.Method
  route : String
  deriving DecidableEq, Repr, Inhabited

def Site.text (s : Site) : String := s.method.name ++ " " ++ s.route

/-- An answer whose status is no success. -/
structure HttpFailure where
  site : Site
  status : Http.Status
  attempts : Nat
  /-- No retry will follow. -/
  concluded : Bool
  severity : Severity
  body : String
  headers : Http.Headers
  deriving DecidableEq, Repr

inductive CallError where
  | usage (reason : String)
  | configuration (reason : String)
  | invalidUrl (problem : Url.Problem)
  | serialization (reason : String)
  | http (failure : HttpFailure)
  /-- The server answered 204. -/
  | noContent (site : Site) (attempts : Nat)
  /-- The client is cooling down; the server was not contacted. -/
  | explicitBackoff (site : Site) (remaining : Duration) (attempts : Nat)
  | network (site : Site) (attempts : Nat) (connecting : Bool) (cause : String)
  | timeout (site : Site) (attempts : Nat) (budget : Duration)
  | deadlineExceeded (site : Site) (attempts : Nat)
  | undecodable (site : Site) (status : Http.Status) (attempts : Nat) (body reason : String)
  deriving DecidableEq, Repr

def HttpFailure.message (f : HttpFailure) : String :=
  f.site.text ++ ": HTTP error " ++ f.status.text ++ " after " ++ toString f.attempts ++
    " attempt(s)" ++ if f.body.isEmpty then "" else ": " ++ f.body

namespace CallError

def message : CallError → String
  | .usage reason => "Invalid request: " ++ reason
  | .configuration reason => "Configuration error: " ++ reason
  | .invalidUrl problem => "Invalid URL: " ++ problem.message
  | .serialization reason => "Failed to serialize request: " ++ reason
  | .http failure => failure.message
  | .noContent site _ => site.text ++ ": no content"
  | .explicitBackoff site remaining _ =>
    site.text ++ ": explicit backoff in effect for another " ++ remaining.text
  | .network site attempts _ cause =>
    site.text ++ ": network error on attempt " ++ toString attempts ++ ": " ++ cause
  | .timeout site attempts budget =>
    site.text ++ ": attempt " ++ toString attempts ++ " timed out after " ++ budget.text
  | .deadlineExceeded site attempts =>
    site.text ++ ": call deadline exceeded after " ++ toString attempts ++ " attempts"
  | .undecodable site status _ _ reason =>
    site.text ++ ": failed to decode response (status " ++ status.text ++ "): " ++ reason

/-- Network trouble, a slow attempt and a 5xx may clear up; nothing else is worth a retry. -/
def isRetryable : CallError → Bool
  | .network .. | .timeout .. => true
  | .http failure => failure.status.isServerError
  | _ => false

def status? : CallError → Option Http.Status
  | .http failure => some failure.status
  | .undecodable _ status .. => some status
  | .noContent .. => some .noContent
  | _ => none

/-- The attempts made, if the call got that far. -/
def attempts? : CallError → Option Nat
  | .http failure => some failure.attempts
  | .noContent _ attempts => some attempts
  | .explicitBackoff _ _ attempts => some attempts
  | .network _ attempts .. => some attempts
  | .timeout _ attempts _ => some attempts
  | .deadlineExceeded _ attempts => some attempts
  | .undecodable _ _ attempts .. => some attempts
  | _ => none

def severity : CallError → Severity
  | .http failure => failure.severity
  | .noContent .. => .expected
  | .explicitBackoff .. | .network .. | .timeout .. | .deadlineExceeded .. => .transient
  | .usage _ | .configuration _ | .invalidUrl _ | .serialization _ | .undecodable .. => .fatal

def isNoContent : CallError → Bool
  | .noContent .. => true
  | _ => false

def isExplicitBackoff : CallError → Bool
  | .explicitBackoff .. => true
  | _ => false

def body? : CallError → Option String
  | .http failure => some failure.body
  | .undecodable _ _ _ body _ => some body
  | _ => none

def http? : CallError → Option HttpFailure
  | .http failure => some failure
  | _ => none

def cause? : CallError → Option String
  | .invalidUrl problem => some problem.message
  | .network _ _ _ cause => some cause
  | _ => none

/-- The error as the call ends with it: an HTTP failure gets its final severity. -/
def conclude (expected : ExpectedStatuses) : CallError → CallError
  | .http f => .http { f with concluded := true, severity := expected.severity f.status true }
  | e => e

@[simp] theorem attempts?_conclude (expected : ExpectedStatuses) (e : CallError) :
    (e.conclude expected).attempts? = e.attempts? := by
  cases e <;> rfl

end CallError

end ServiceCall
