import ServiceCall.Call.Error

/-!
# Retry predicates

Which failures get another attempt, given the error and the number of the attempt that ended with
it.
-/

namespace ServiceCall

/-- Whether to retry after an error that ended the attempt of this number. -/
abbrev RetryPredicate := CallError → Nat → Bool

namespace RetryPredicate

/-- Whatever may be retried at all. -/
def retryable : RetryPredicate := fun e _ => e.isRetryable

def onServerError : RetryPredicate := fun e _ => e.http?.any (·.status.isServerError)

def onTimeout : RetryPredicate := fun e _ =>
  match e with
  | .timeout .. => true
  | _ => false

def onNetworkError : RetryPredicate := fun e _ =>
  match e with
  | .network .. => true
  | _ => false

def anyOf (ps : List RetryPredicate) : RetryPredicate := fun e n => ps.any fun p => p e n

def allOf (ps : List RetryPredicate) : RetryPredicate := fun e n => ps.all fun p => p e n

end RetryPredicate

end ServiceCall
