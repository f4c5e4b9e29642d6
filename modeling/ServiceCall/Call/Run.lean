import ServiceCall.Call.Attempt

/-!
# Runs

A call makes attempts one after the other. Before each one it checks the cool-down and the
deadline; after one that failed it decides whether and when to try again. The decisions are
functions of what is known at that moment, and a run puts them together over a world in which
attempts are made and time passes.
-/

namespace ServiceCall

inductive Gate where
  | refused (error : CallError)
  | admitted (attempt : Attempt)

inductive Verdict where
  | final
  /-- The schedule has no retry left. -/
  | exhausted
  /-- The next attempt would begin too late. -/
  | tooLate
  | retry (delay : Duration)
  deriving DecidableEq, Repr

def Verdict.journal : Verdict → Journal
  | .final => .empty
  | .exhausted => .line .debug "Retries exhausted"
  | .tooLate => .line .debug "Next retry would cross the call deadline"
  | .retry _ => .line .warn "Retrying request after delay"

namespace Call

/-- A cool-down is noticed first, then the deadline. -/
def gate (c : Call) (cooldown : Cooldown) (made : Nat) (now : Instant) (span : TraceId 64) :
    Gate :=
  match cooldown.remaining? now with
  | some remaining => .refused (.explicitBackoff c.request.site remaining made)
  | none =>
    if c.deadline?.any (· ≤ now) then .refused (.deadlineExceeded c.request.site made)
    else .admitted (c.nextAttempt made now span)

def refusalJournal : CallError → Journal
  | .explicitBackoff .. =>
    .line .warn "Explicit backoff in effect; not contacting the server"
  | _ => .empty

/-- Whether a delay that begins now ends before the deadline. -/
def fits (c : Call) (now : Instant) (delay : Duration) : Bool :=
  match c.deadline? with
  | none => true
  | some deadline => (now.after? delay).any (· < deadline)

/-- What follows the failure of the attempt of this number. -/
def verdict (c : Call) (number : Nat) (error : CallError) (now : Instant)
    (draw : Schedule.Draw) : Verdict :=
  if !(c.request.retryEnabled && error.isRetryable && c.client.predicate error number) then
    .final
  else
    match c.client.schedule.delay? draw number with
    | none => .exhausted
    | some delay => if c.fits now delay then .retry delay else .tooLate

end Call

/-! ## After an attempt -/

inductive Next (α : Type) where
  | ended (result : Except CallError (Response α))
  | again (delay : Duration)

/-- The response of a call that ends now. -/
def Response.endingAt {α : Type} (r : Response α) (c : Call) (now : Instant) : Response α :=
  { r with latency := now.since c.startedAt }

/-- The reaction to the end of an attempt, and what is noted about both. -/
def Call.react {α : Type} (c : Call) (decode : Decoder α) (a : Attempt) (e : Ending)
    (now : Instant) (draw : Schedule.Draw) : Next α × Journal :=
  let journal := c.attemptJournal decode a e
  match c.attemptResult decode a e with
  | .ok response => (.ended (.ok (response.endingAt c now)), journal)
  | .error error =>
    let verdict := c.verdict a.number error now draw
    let next := match verdict with
      | .retry delay => .again delay
      | _ => .ended (.error (error.conclude c.client.expectedStatuses))
    (next, journal ++ verdict.journal)

/-! ## Runs over a world -/

/-- What a run needs of the world around it, whose state is a `σ`. -/
structure World (σ : Type) where
  now : σ → Instant
  cooldown : σ → Cooldown
  random : σ → Nat × σ
  /-- Makes an attempt, until it ends or is cut off. -/
  attempt : Call → Attempt → σ → Ending × σ
  sleep : Duration → σ → σ

def Schedule.Draw.ofNat (n : Nat) : Schedule.Draw := Fin.ofNat _ n

/-- The result of a call and what was noted on the way. -/
structure CallEnd (α : Type) where
  result : Except CallError (Response α)
  journal : Journal

/-- The run of a call after `made` attempts; nothing if it makes more than `fuel` further ones. -/
def Call.run {σ α : Type} (w : World σ) (c : Call) (decode : Decoder α) :
    (fuel made : Nat) → σ → Option (CallEnd α × σ)
  | 0, _, _ => none
  | fuel + 1, made, s =>
    let (span, s) := w.random s
    match c.gate (w.cooldown s) made (w.now s) (.ofSpanDraw span) with
    | .refused error => some (⟨.error error, refusalJournal error⟩, s)
    | .admitted a =>
      let (ending, s) := w.attempt c a s
      let (draw, s) := w.random s
      match c.react decode a ending (w.now s) (.ofNat draw) with
      | (.ended result, journal) => some (⟨result, journal⟩, s)
      | (.again delay, journal) =>
        (c.run w decode fuel (made + 1) (w.sleep delay s)).map fun (rest, s) =>
          (⟨rest.result, journal ++ rest.journal⟩, s)

/-! ## The report of a call -/

namespace CallEnd

def attempts {α : Type} (e : CallEnd α) : Nat :=
  match e.result with
  | .ok response => response.attempts
  | .error error => error.attempts?.getD 0

def status? {α : Type} (e : CallEnd α) : Option Http.Status :=
  match e.result with
  | .ok response => some response.status
  | .error error => error.status?

def error? {α : Type} (e : CallEnd α) : Option CallError :=
  match e.result with
  | .ok _ => none
  | .error error => some error

def tags {α : Type} (c : Call) (e : CallEnd α) : List Tag :=
  c.tags ++ (e.status?.map Call.statusTag).toList ++
    (e.error?.map fun error => ⟨"severity", error.severity.label⟩).toList

def events {α : Type} (c : Call) (e : CallEnd α) (elapsed : Duration) : List MetricEvent :=
  [.timing "http_client.call.duration" elapsed (e.tags c),
    .count "http_client.call.attempts" e.attempts (e.tags c)]

def log {α : Type} (e : CallEnd α) : Journal :=
  match e.error? with
  | none => .empty
  | some error =>
    if error.severity.isFailure then .line .warn "Call failed"
    else .line .debug "Call ended with an expected condition"

def span {α : Type} (c : Call) (e : CallEnd α) : Span where
  name := "http.call"
  fields :=
    [("client", .text c.client.name), ("method", .text c.request.site.method.name),
      ("route", .text c.request.site.route), ("attempts", .number e.attempts)] ++
    (e.status?.map fun status => ("status", .number status.code)).toList ++
    match e.error? with
    | none => []
    | some error =>
      [("severity", .text error.severity.label), ("error", .text error.message)]

def journals {α : Type} (ends : List (CallEnd α)) : Journal :=
  ends.foldl (fun journal e => journal ++ e.journal) .empty

/-- The end of a call with the report on the whole around its journal. -/
def reported {α : Type} (c : Call) (e : CallEnd α) (elapsed : Duration) : CallEnd α :=
  { e with
    journal := .ofSpan (e.span c) ++ e.journal ++ e.log ++ .ofMetrics (e.events c elapsed) }

end CallEnd

def Call.perform {σ α : Type} (w : World σ) (c : Call) (decode : Decoder α) (fuel : Nat)
    (s : σ) : Option (CallEnd α × σ) :=
  (c.run w decode fuel 0 s).map fun (e, s) => (e.reported c ((w.now s).since c.startedAt), s)

end ServiceCall
