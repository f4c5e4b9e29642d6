import ServiceCall.Conn.Phases
import ServiceCall.Conn.Usage

/-!
# Connection records

How an attempt got its connection: dialed for it, idle in the pool when it asked, or handed over
by another request while it waited. The time until the first byte of the response divides into
phases.
-/

namespace ServiceCall

structure ConnRecord where
  host : String
  /-- The connection had served an earlier request. -/
  reused : Bool
  /-- It was in the pool when the attempt asked. -/
  wasIdle : Bool
  idleFor : Option Duration
  /-- It came from another request while this one waited: there were not enough connections. -/
  starved : Bool
  /-- The wait was longer than the threshold. -/
  delayed : Bool
  /-- From asking to getting, without the time it took to connect. -/
  wait : Duration
  dns : Option Duration
  dial : Option Duration
  tls : Option Duration
  requestSend : Option Duration
  firstByte : Option Duration
  deriving DecidableEq, Repr

namespace ConnRecord

def delayThreshold : Duration := .ofMillis 10

/-- The record of an attempt that asked at `requestedAt` and got this lease. -/
def classify (host : String) (requestedAt : Instant) (lease : Lease) (timings : ConnectTimings) :
    ConnRecord :=
  let waited := lease.obtainedAt.since requestedAt
  let wasIdle := lease.reused && lease.idleSince.any (· ≤ requestedAt)
  let wait := if lease.reused then waited else waited.minus timings.total
  { host
    reused := lease.reused
    wasIdle
    idleFor := if wasIdle then lease.idleSince.map (lease.obtainedAt.since ·) else none
    starved := lease.reused && !wasIdle
    delayed := delayThreshold < wait
    wait
    dns := if lease.reused then none else timings.dns
    dial := if lease.reused then none else timings.dial
    tls := if lease.reused then none else timings.tls
    requestSend := lease.wroteAt.map (·.since lease.obtainedAt)
    firstByte := do (← lease.firstByteAt).since (← lease.wroteAt) }

/-! ## Reports -/

/-- The phases that apply, by the name of their metric. -/
def phases (r : ConnRecord) : List (String × Duration) :=
  [("http_client.conn.idle", r.idleFor),
    ("http_client.conn.dns", r.dns),
    ("http_client.conn.dial", r.dial),
    ("http_client.conn.tls", r.tls),
    ("http_client.request.send", r.requestSend),
    ("http_client.response.first_byte", r.firstByte)].filterMap fun (name, d) =>
      d.map fun d => (name, d)

def events (r : ConnRecord) (tags : List Tag) : List MetricEvent :=
  let obtained := tags ++
    [⟨"reused", toString r.reused⟩, ⟨"idle", toString r.wasIdle⟩,
      ⟨"starved", toString r.starved⟩, ⟨"delayed", toString r.delayed⟩]
  .count "http_client.conn.obtained" 1 obtained ::
    .timing "http_client.conn.wait" r.wait tags ::
    r.phases.map fun (name, d) => .timing name d tags

inductive FieldValue where
  | bool (b : Bool)
  | number (n : Nat)
  | text (s : String)
  | millis (x : Binary64)
  deriving DecidableEq, Repr

/-- A span of time in milliseconds: seconds and their fraction are added first. -/
def millis (d : Duration) : Binary64 :=
  let seconds := Binary64.ofNat (d.nanos / nanosPerSecond)
  let fraction := (Binary64.ofNat (d.nanos % nanosPerSecond)).div (.ofNat nanosPerSecond)
  (seconds.add fraction).mul (.ofNat 1000)

def spanFields (r : ConnRecord) : List (String × FieldValue) :=
  [("conn.reused", .bool r.reused), ("conn.idle", .bool r.wasIdle),
    ("conn.starved", .bool r.starved), ("conn.delayed", .bool r.delayed),
    ("conn.wait_ms", .millis (millis r.wait))] ++
  [("conn.idle_ms", r.idleFor), ("conn.dns_ms", r.dns), ("conn.dial_ms", r.dial),
    ("conn.tls_ms", r.tls), ("req.send_ms", r.requestSend),
    ("resp.first_byte_ms", r.firstByte)].filterMap fun (name, d) =>
      d.map fun d => (name, .millis (millis d))

end ConnRecord

end ServiceCall
