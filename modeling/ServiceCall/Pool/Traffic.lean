import ServiceCall.Pool.Gauges
import ServiceCall.Pool.Permits
import ServiceCall.Retry.Cooldown

/-!
# Traffic

What the attempts of one client share, and how far each of them has come. An attempt asks for a
permit, is in flight from when it gets one, gives it back once it has read its answer to the end,
and ends. It may also end early, at any point.
-/

namespace ServiceCall

inductive Progress where
  | queued
  /-- It holds a permit, and its request is with the transport. -/
  | inFlight
  /-- It has read its answer to the end. -/
  | answered
  deriving DecidableEq, Repr

structure Traffic where
  cooldown : Cooldown
  gauges : Gauges
  permits : Permits
  /-- The attempts that have not ended, by number. -/
  attempts : List (Nat × Progress)
  deriving DecidableEq, Repr

namespace Traffic

def quiet (cooldown : Cooldown) (limit : Nat) : Traffic :=
  ⟨cooldown, .zero, .ofLimit limit, []⟩

def progress? (t : Traffic) (id : Nat) : Option Progress := t.attempts.lookup id

def setProgress (t : Traffic) (id : Nat) (p : Progress) : Traffic :=
  { t with attempts := t.attempts.map fun (n, q) => if n = id then (n, p) else (n, q) }

/-- An attempt asks for a permit to a destination. -/
def ask (t : Traffic) (id : Nat) (key : String) : Traffic :=
  { t with permits := t.permits.acquire key id, attempts := t.attempts ++ [(id, .queued)] }

def isGranted (t : Traffic) (id : Nat) : Bool := t.permits.ticket? id = some .granted

def send (t : Traffic) (id : Nat) : Traffic :=
  { t.setProgress id .inFlight with gauges := t.gauges.enter }

/-- An attempt has read its answer to the end and gives its permit back. -/
def answered (t : Traffic) (id : Nat) : Traffic :=
  { t.setProgress id .answered with permits := t.permits.drop id }

/-- A 429 was read; `clock` is the time since 1970. -/
def throttled (t : Traffic) (h : Http.Headers) (now : Instant) (clock : Duration) : Traffic :=
  { t with cooldown := t.cooldown.observe h now clock }

def finish (t : Traffic) (id : Nat) : Traffic :=
  match t.progress? id with
  | none => t
  | some p =>
    { t with
      permits := t.permits.drop id
      gauges := if p = .queued then t.gauges else t.gauges.leave
      attempts := t.attempts.filter fun (n, _) => n ≠ id }

/-- So many more connections idle. -/
def addAvail (t : Traffic) (change : Int) : Traffic :=
  { t with gauges := t.gauges.addAvail change }

/-- A scrape starts the running maximum of the gauges anew. -/
def scraped (t : Traffic) : Traffic := { t with gauges := t.gauges.scraped }

end Traffic

end ServiceCall
