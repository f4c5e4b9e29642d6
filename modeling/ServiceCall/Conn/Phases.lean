import ServiceCall.Time.Instant

/-!
# Phases of connecting

How the time that it took to establish a connection divides into looking up the name, reaching
the host, and agreeing on keys.
-/

namespace ServiceCall

structure ConnectMarks where
  lookup : Option Duration
  reachedAt : Option Instant
  deriving DecidableEq, Repr

structure ConnectTimings where
  dns : Option Duration
  dial : Option Duration
  tls : Option Duration
  total : Duration
  deriving DecidableEq, Repr, Inhabited

/-- The phases of a connect from `started` to `finished`. What follows reaching the host is the
agreement on keys, if the connection is secure. -/
def ConnectMarks.timings (m : ConnectMarks) (started finished : Instant) (secure : Bool) :
    ConnectTimings where
  dns := m.lookup
  dial := m.reachedAt.map fun t => (t.since started).minus (m.lookup.getD .zero)
  tls := if secure then m.reachedAt.map (finished.since ·) else none
  total := finished.since started

end ServiceCall
