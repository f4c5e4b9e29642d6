import ServiceCall.Call.Attempt
import ServiceCall.Pool.Traffic
import ServiceCall.Rehearsal.Peer

/-!
# Rehearsals

The state of a rehearsal: a clock that moves from event to event, the connections of the client,
what its attempts share, what the peers have received, and the rest of the script.
-/

namespace ServiceCall

structure Rehearsal.Link where
  id : Nat
  /-- What it can be used for. -/
  key : String
  host : String
  timings : ConnectTimings
  usage : Usage
  /-- Since when nobody uses it. -/
  pooledSince : Option Instant
  deriving DecidableEq, Repr

structure Rehearsal where
  network : Rehearsal.Network
  /-- The time since 1970 at the origin of the clock. -/
  epoch : Duration
  now : Instant
  /-- How many random numbers were drawn. -/
  drawn : Nat
  /-- The number of the next attempt or connection. -/
  serial : Nat
  traffic : Traffic
  links : List Rehearsal.Link
  script : List Rehearsal.ScriptedReply
  received : List PhysicalRequest

namespace Rehearsal

/-- A rehearsal of this client that has not begun. -/
def new (network : Network) (epoch : Duration) (client : Client) (script : List ScriptedReply) :
    Rehearsal where
  network
  epoch
  now := ⟨0⟩
  drawn := 0
  serial := 0
  traffic := .quiet (.ofWindow client.cooldownWindow) client.maxConnectionsPerHost
  links := []
  script
  received := []

/-- The time since 1970. -/
def clock (r : Rehearsal) : Duration := .ofNanos (r.epoch.nanos + r.now.nanos).toNat

def random (r : Rehearsal) : Nat × Rehearsal := (r.drawn, { r with drawn := r.drawn + 1 })

def sleep (d : Duration) (r : Rehearsal) : Rehearsal := { r with now := r.now.after d }

/-- The clock moves on to a moment, if it has not passed it. -/
def moveTo (r : Rehearsal) (t : Instant) : Rehearsal :=
  if r.now < t then { r with now := t } else r

/-! ## Connections -/

/-- What the connections for an address have in common. -/
def linkKey (uri : Http.Uri) : String := uri.scheme.getD "" ++ "://" ++ uri.authority.getD ""

def link? (r : Rehearsal) (id : Nat) : Option Link := r.links.find? (·.id = id)

def setLink (r : Rehearsal) (link : Link) : Rehearsal :=
  { r with links := r.links.map fun l => if l.id = link.id then link else l }

/-- A step of the usage of a connection. -/
def use (r : Rehearsal) (id : Nat) (step : Usage → Usage × Int) : Rehearsal :=
  match r.link? id with
  | none => r
  | some link =>
    let (usage, change) := step link.usage
    { r.setLink { link with usage } with traffic := r.traffic.addAvail change }

def close (r : Rehearsal) (id : Nat) : Rehearsal :=
  match r.link? id with
  | none => r
  | some link =>
    { r with
      links := r.links.filter (·.id ≠ id)
      traffic := r.traffic.addAvail link.usage.closingChange }

def closeIf (r : Rehearsal) (p : Link → Bool) : Rehearsal :=
  (r.links.filter p).foldl (fun r link => r.close link.id) r

def closeIdle (r : Rehearsal) : Rehearsal := r.closeIf (·.pooledSince.isSome)

/-- Closes the connections that nobody has used for too long. -/
def expire (r : Rehearsal) (limit : Duration) : Rehearsal :=
  r.closeIf fun link => link.pooledSince.any fun t => limit < r.now.since t

/-- The connection that was put into the pool last, of those for this key. -/
def idleLink? (r : Rehearsal) (key : String) : Option Link :=
  (r.links.filter fun link => link.key = key && link.pooledSince.isSome).getLast?

/-- Takes a connection out of the pool or puts it back; those put back later come last. -/
def setPooled (r : Rehearsal) (id : Nat) (since : Option Instant) : Rehearsal :=
  match r.link? id with
  | none => r
  | some link =>
    { r with links := r.links.filter (·.id ≠ id) ++ [{ link with pooledSince := since }] }

/-! ## How long things take -/

def lookupTime : Duration := .ofNanos 40000

def reachTime : Duration := .ofNanos 60000

/-- The time to agree on keys. -/
def keysTime : Duration := .ofNanos 100000

def sendTime : Duration := .ofNanos 20000

def replyTime : Duration := .ofNanos 100000

/-- What is noted while connecting to an address from `started` on, and the end of it. -/
def connecting (uri : Http.Uri) (started : Instant) : ConnectTimings × Instant :=
  let reached := (started.after lookupTime).after reachTime
  let finished := if uri.isSecure then reached.after keysTime else reached
  (ConnectMarks.timings ⟨some lookupTime, some reached⟩ started finished uri.isSecure, finished)

def connect (r : Rehearsal) (uri : Http.Uri) (timings : ConnectTimings) : Nat × Rehearsal :=
  (r.serial,
    { r with
      serial := r.serial + 1
      links := r.links ++ [{
        id := r.serial
        key := linkKey uri
        host := uri.destination
        timings
        usage := .unused
        pooledSince := none }] })

end Rehearsal

end ServiceCall
