import ServiceCall.Metrics.Event

/-!
# Pool gauges

How many requests are in flight, the most there were since the last scrape, and an estimate of
the idle connections. The estimate is signed, because connections report on their own; a scrape
shows nothing below zero.
-/

namespace ServiceCall

structure Snapshot where
  inFlight : Nat
  inFlightMax : Nat
  availEstimate : Nat
  deriving DecidableEq, Repr

structure Gauges where
  inFlight : Int
  inFlightMax : Int
  avail : Int
  deriving DecidableEq, Repr

namespace Gauges

def zero : Gauges := ⟨0, 0, 0⟩

def enter (g : Gauges) : Gauges :=
  { g with inFlight := g.inFlight + 1, inFlightMax := max g.inFlightMax (g.inFlight + 1) }

def leave (g : Gauges) : Gauges := { g with inFlight := g.inFlight - 1 }

/-- So many more connections idle. -/
def addAvail (g : Gauges) (change : Int) : Gauges := { g with avail := g.avail + change }

def snapshot (g : Gauges) : Snapshot :=
  let inFlight := max g.inFlight 0
  ⟨inFlight.toNat, (max g.inFlightMax inFlight).toNat, g.avail.toNat⟩

/-- A scrape starts the running maximum anew. -/
def scraped (g : Gauges) : Gauges := { g with inFlightMax := max g.inFlight 0 }

end Gauges

def Snapshot.events (s : Snapshot) (tags : List Tag) : List MetricEvent :=
  [.gauge "http_client.pool.in_flight" s.inFlight tags,
    .gauge "http_client.pool.in_flight_max" s.inFlightMax tags,
    .gauge "http_client.pool.avail_estimate" s.availEstimate tags]

/-! ## Guards -/

/-- Gauges with numbered guards: each one keeps its request in flight until it is dropped. -/
structure GuardedGauges where
  gauges : Gauges
  /-- For each guard taken, whether it is still held. -/
  held : List Bool

namespace GuardedGauges

def new : GuardedGauges := ⟨.zero, []⟩

def enter (g : GuardedGauges) : GuardedGauges := ⟨g.gauges.enter, g.held ++ [true]⟩

/-- Drops a guard; dropping it again does nothing. -/
def leave (g : GuardedGauges) (guard : Nat) : GuardedGauges :=
  if g.held[guard]? = some true then ⟨g.gauges.leave, g.held.set guard false⟩ else g

end GuardedGauges

end ServiceCall
