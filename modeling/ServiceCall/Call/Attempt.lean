import ServiceCall.Call.Exchange

/-!
# Attempts

One exchange with the server as a part of a call: how long it may take, how it can end, what its
end means for the call, and what it leaves behind for those who watch.
-/

namespace ServiceCall

/-- The earliest of the end of the client's timeout, if it has one, and the caller's deadline. -/
def callDeadline (started : Instant) (timeout : Option Duration) (requested : Option Instant) :
    Option Instant :=
  Instant.earliest (timeout.bind started.after?) requested

/-- What stays the same during a call. -/
structure Call where
  client : Client
  request : Request
  target : Target
  startedAt : Instant
  parent : TraceContext

structure Attempt where
  number : Nat
  budget : Duration
  /-- When the attempt is cut off, if it has not ended. -/
  cutoff : Option Instant
  trace : TraceContext

/-- How an attempt ends. A record of its connection is there once an answer has begun. -/
inductive Ending where
  /-- The answer was read to its end, so long after the attempt asked for a connection. -/
  | answered (answer : Answer) (record : Option ConnRecord) (elapsed : Duration)
  | broken (connecting : Bool) (cause : String) (record : Option ConnRecord)
  | cutOff (record : Option ConnRecord)
  deriving DecidableEq, Repr

def Ending.record? : Ending → Option ConnRecord
  | .answered _ record _ => record
  | .broken _ _ record => record
  | .cutOff record => record

def Ending.answer? : Ending → Option Answer
  | .answered answer _ _ => some answer
  | _ => none

namespace Call

/-- The call that begins now. If its request continues no trace, `root` begins one. -/
def startAt (client : Client) (request : Request) (target : Target) (now : Instant)
    (root : TraceContext) : Call where
  client
  request
  target
  startedAt := now
  parent := request.traceParent.getD root

def start (client : Client) (request : Request) (now : Instant) (root : TraceContext) :
    Except CallError Call :=
  (client.target request).map fun target => startAt client request target now root

/-- The budget of an attempt for which the request gives none. -/
def standardBudget : Duration := .ofSecs 5

def tags (c : Call) : List Tag := c.client.tags c.request c.target.host

def deadline? (c : Call) : Option Instant :=
  callDeadline c.startedAt c.client.timeout c.request.deadline

def budget (c : Call) : Duration := c.request.timeout.getD standardBudget

/-- The attempt after `made` others that begins now. -/
def nextAttempt (c : Call) (made : Nat) (now : Instant) (span : TraceId 64) : Attempt where
  number := made + 1
  budget := c.budget
  cutoff := Instant.earliest (now.after? c.budget) c.deadline?
  trace := c.parent.child span

def physicalRequest (c : Call) (a : Attempt) : PhysicalRequest :=
  c.client.physicalRequest c.request c.target a.trace

/-! ## What the end means -/

/-- The error of an attempt that was cut off: the deadline of the call has passed, or only the
budget of the attempt is spent. -/
def cutoffError (c : Call) (a : Attempt) : CallError :=
  match a.cutoff, c.deadline? with
  | some cutoff, some deadline =>
    if deadline ≤ cutoff then .deadlineExceeded c.request.site a.number
    else .timeout c.request.site a.number a.budget
  | _, _ => .timeout c.request.site a.number a.budget

def attemptResult {α : Type} (c : Call) (decode : Decoder α) (a : Attempt) :
    Ending → Except CallError (Response α)
  | .answered answer record _ => c.client.outcome c.request decode a.number answer record
  | .broken connecting cause _ => .error (.network c.request.site a.number connecting cause)
  | .cutOff _ => .error (c.cutoffError a)

/-! ## The report of an attempt -/

def recordEvents (c : Call) (record : Option ConnRecord) : List MetricEvent :=
  match record with
  | some r => if c.client.connectionTelemetry then r.events c.tags else []
  | none => []

def recordFields (c : Call) (record : Option ConnRecord) :
    List (String × ConnRecord.FieldValue) :=
  match record with
  | some r => if c.client.connectionTelemetry then r.spanFields else []
  | none => []

def statusTag (status : Http.Status) : Tag := ⟨"status", toString status.code⟩

def answerJournal (c : Call) : Ending → Journal
  | .answered answer _ elapsed =>
    .ofMetrics
      [.timing "http_client.attempt.duration" elapsed (c.tags ++ [statusTag answer.status])] ++
    .line .info "Received HTTP response" ++
    if answer.status = .tooManyRequests then
      .line .warn "Server signaled overload; cooling down"
    else .empty
  | _ => .empty

def attemptSpan (c : Call) (a : Attempt) (e : Ending) : Span where
  name := "http.attempt"
  fields := ("attempt", .number a.number) :: c.recordFields e.record? ++
    (e.answer?.map fun answer => ("status", .number answer.status.code)).toList

def outcomeJournal {α : Type} (c : Call) (decode : Decoder α) (a : Attempt) : Ending → Journal
  | .answered answer record _ =>
    Client.outcomeLog (c.client.outcome c.request decode a.number answer record)
  | _ => .empty

def attemptJournal {α : Type} (c : Call) (decode : Decoder α) (a : Attempt) (e : Ending) :
    Journal :=
  .ofSpan (c.attemptSpan a e) ++ .line .debug "Executing HTTP request" ++
    .ofMetrics (c.recordEvents e.record?) ++ c.answerJournal e ++ c.outcomeJournal decode a e

end Call

end ServiceCall
