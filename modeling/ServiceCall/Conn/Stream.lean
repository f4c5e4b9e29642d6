import ServiceCall.Conn.Usage

/-!
# Watched streams

A stream that carries a connection and tells its usage of every write and read that went through.
Flushing and shutting down move nothing and are not told.
-/

namespace ServiceCall

inductive Polled where
  | done (bytes : Nat)
  | pending
  | failed
  deriving DecidableEq, Repr

inductive StreamOp where
  | write
  | writeVectored
  | read
  | flush
  | shutdown
  deriving DecidableEq, Repr

structure WatchedStream where
  host : String
  vectored : Bool
  isOpen : Bool
  usage : Usage
  gauges : Gauges
  deriving DecidableEq, Repr

namespace WatchedStream

def new (host : String) (vectored : Bool) : WatchedStream :=
  ⟨host, vectored, true, .unused, .zero⟩

def apply (s : WatchedStream) (step : Usage × Int) : WatchedStream :=
  { s with usage := step.1, gauges := s.gauges.addAvail step.2 }

/-- What the usage learns from an operation that gave this. A write counts if it took at least
one byte, a read whenever it did not fail. -/
def noted (s : WatchedStream) (op : StreamOp) (polled : Polled) (t : Instant) : WatchedStream :=
  match op, polled with
  | .write, .done n => if n > 0 then s.apply (s.usage.wrote t) else s
  | .writeVectored, .done n => if n > 0 then s.apply (s.usage.wrote t) else s
  | .read, .done _ => s.apply (s.usage.received t, 0)
  | _, _ => s

/-- The attempt that holds the connection gives it back. -/
def release (s : WatchedStream) (t : Instant) : WatchedStream :=
  match s.usage.current? with
  | some lease => s.apply (s.usage.released lease.obtainedAt t)
  | none => s

/-- Closes the stream; closing it again does nothing. -/
def drop (s : WatchedStream) : WatchedStream :=
  if s.isOpen then { s.apply (s.usage, s.usage.closingChange) with isOpen := false } else s

end WatchedStream

end ServiceCall
