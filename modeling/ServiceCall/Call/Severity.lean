import ServiceCall.Http.Status

/-!
# Severity

How telemetry counts an outcome, and which statuses are a normal part of life.
-/

namespace ServiceCall

inductive Severity where
  /-- A normal, anticipated condition. -/
  | expected
  /-- A failure that may clear on its own. -/
  | transient
  /-- A failure that another attempt would not fix. -/
  | fatal
  deriving DecidableEq, Repr, Inhabited

namespace Severity

def label : Severity → String
  | .expected => "expected"
  | .transient => "transient"
  | .fatal => "fatal"

def isFailure (s : Severity) : Bool := s ≠ .expected

end Severity

/-- The statuses that count as expected once no retry will follow. -/
structure ExpectedStatuses where
  statuses : List Http.Status
  deriving DecidableEq, Repr

namespace ExpectedStatuses

def standard : ExpectedStatuses := ⟨[.unauthorized, .forbidden, .notFound]⟩

def contains (e : ExpectedStatuses) (s : Http.Status) : Bool := e.statuses.contains s

/-- The severity of a status that is no success. As long as a retry may follow, it is expected,
so that an attempt on the way does not count as a failure. -/
def severity (e : ExpectedStatuses) (s : Http.Status) (concluded : Bool) : Severity :=
  if !concluded || e.contains s then .expected
  else if s.isServerError then .transient
  else .fatal

end ExpectedStatuses

end ServiceCall
