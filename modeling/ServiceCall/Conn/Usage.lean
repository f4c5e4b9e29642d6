import ServiceCall.Pool.Gauges
import ServiceCall.Time.Instant

/-!
# Use of a connection

A connection serves one request after the other. A lease is one such use: it begins with the
first bytes written and ends when the connection goes back to the pool, or when the next request
writes on it after the response has begun. Each step says how it changes the number of idle
connections.
-/

namespace ServiceCall

structure Lease where
  /-- The request began to write. -/
  obtainedAt : Instant
  /-- The connection had served an earlier request. -/
  reused : Bool
  /-- The connection went back to the pool, if it came from there. -/
  idleSince : Option Instant
  /-- The last write before the response began. -/
  wroteAt : Option Instant
  /-- The response began. -/
  firstByteAt : Option Instant
  deriving DecidableEq, Repr

structure Usage where
  uses : Nat
  inUse : Bool
  idle : Bool
  idleSince : Option Instant
  lease : Option Lease
  deriving DecidableEq, Repr, Inhabited

namespace Usage

def unused : Usage := ⟨0, false, false, none, none⟩

/-- A write begins a new lease. There is no pipelining, so a write after the response has begun
belongs to the next request even if the connection never went back to the pool. -/
def startsLease (u : Usage) : Bool := !u.inUse || u.lease.any (·.firstByteAt.isSome)

def begun (u : Usage) (t : Instant) : Usage :=
  { uses := u.uses + 1
    inUse := true
    idle := false
    idleSince := u.idleSince
    lease := some {
      obtainedAt := t
      reused := u.uses > 0
      idleSince := if u.idle then u.idleSince else none
      wroteAt := none
      firstByteAt := none } }

def wrote (u : Usage) (t : Instant) : Usage × Int :=
  let next := if u.startsLease then u.begun t else u
  ({ next with
      lease := next.lease.map fun l =>
        if l.firstByteAt.isNone then { l with wroteAt := some t } else l },
    if u.startsLease && u.idle then -1 else 0)

def received (u : Usage) (t : Instant) : Usage :=
  if !u.inUse then u
  else
    { u with
      lease := u.lease.map fun l =>
        if l.wroteAt.isSome && l.firstByteAt.isNone then { l with firstByteAt := some t }
        else l }

/-- The lease that began at `obtainedAt` ends; any other lease is left alone. -/
def released (u : Usage) (obtainedAt t : Instant) : Usage × Int :=
  if !u.inUse || u.lease.map (·.obtainedAt) ≠ some obtainedAt then (u, 0)
  else ({ u with inUse := false, idle := true, idleSince := some t }, 1)

/-- The change that closing the connection makes to the number of idle ones. -/
def closingChange (u : Usage) : Int := if u.idle then -1 else 0

/-- The lease of the request that is being served. -/
def current? (u : Usage) : Option Lease := if u.inUse then u.lease else none

end Usage

/-! ## Connections that share gauges -/

inductive ConnEvent where
  | wrote (conn : Nat) (t : Instant)
  | received (conn : Nat) (t : Instant)
  | released (conn : Nat) (obtainedAt t : Instant)
  | closed (conn : Nat)
  deriving DecidableEq, Repr

/-- Connections, by number, and the gauges that they share. -/
structure Fleet where
  usages : List Usage
  gauges : Gauges
  deriving DecidableEq, Repr

namespace Fleet

def ofSize (n : Nat) : Fleet := ⟨List.replicate n .unused, .zero⟩

def usage (f : Fleet) (conn : Nat) : Usage := f.usages.getD conn .unused

def put (f : Fleet) (conn : Nat) (step : Usage × Int) : Fleet :=
  ⟨f.usages.set conn step.1, f.gauges.addAvail step.2⟩

def step (f : Fleet) : ConnEvent → Fleet
  | .wrote conn t => f.put conn ((f.usage conn).wrote t)
  | .received conn t => f.put conn ((f.usage conn).received t, 0)
  | .released conn obtainedAt t => f.put conn ((f.usage conn).released obtainedAt t)
  | .closed conn => f.put conn (f.usage conn, (f.usage conn).closingChange)

end Fleet

end ServiceCall
