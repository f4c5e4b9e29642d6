import ServiceCall.Text.Blank

/-!
# Permits

A cap on the requests to one destination. A request that finds no permit waits; a permit that is
given back goes to the request that has waited longest. Destinations that nobody holds a permit
for or waits for are forgotten when a new one comes up.
-/

namespace ServiceCall

/-- How a request stands with its destination. -/
inductive Ticket where
  | waiting
  /-- A permit is reserved or held. -/
  | granted
  deriving DecidableEq, Repr

/-- One destination: the permits nobody has, and the requests in the order they came. -/
structure Queue where
  key : String
  free : Nat
  tickets : List (Nat × Ticket)
  deriving DecidableEq, Repr

namespace Queue

def isIdle (q : Queue) : Bool := q.tickets.isEmpty

/-- Gives a permit to the first request that waits, or keeps it. -/
def grantFirst : List (Nat × Ticket) → Option (List (Nat × Ticket))
  | [] => none
  | (id, .waiting) :: rest => some ((id, .granted) :: rest)
  | ticket :: rest => (grantFirst rest).map (ticket :: ·)

def putBack (q : Queue) : Queue :=
  match grantFirst q.tickets with
  | some tickets => { q with tickets }
  | none => { q with free := q.free + 1 }

def join (q : Queue) (id : Nat) : Queue :=
  if q.free > 0 then { q with free := q.free - 1, tickets := q.tickets ++ [(id, .granted)] }
  else { q with tickets := q.tickets ++ [(id, .waiting)] }

/-- A request gives its permit back or stops waiting. -/
def leave (q : Queue) (id : Nat) : Queue :=
  match q.tickets.lookup id with
  | none => q
  | some ticket =>
    let q := { q with tickets := q.tickets.filter (·.1 ≠ id) }
    if ticket = .granted then q.putBack else q

end Queue

/-- The permits of all destinations; no destination has more than `limit`. -/
structure Permits where
  limit : Nat
  queues : List Queue
  deriving DecidableEq, Repr

namespace Permits

/-- The most permits that one destination can have. -/
def maxLimit : Nat := 2305843009213693951

def ofLimit (limit : Nat) : Permits := ⟨limit, []⟩

/-- A destination that is not known can only be added if its permits can be counted. -/
def canAcquire (p : Permits) : Bool := p.limit ≤ maxLimit

/-- The destinations, with this one among them. -/
def withKey (p : Permits) (key : String) : List Queue :=
  if p.queues.any (·.key = key) then p.queues
  else p.queues.filter (fun q => !q.isIdle) ++ [⟨key, p.limit, []⟩]

/-- A request asks for a permit to a destination, whose name has no case. -/
def acquire (p : Permits) (key : String) (id : Nat) : Permits :=
  let key := Text.lower key
  { p with queues := (p.withKey key).map fun q => if q.key = key then q.join id else q }

def drop (p : Permits) (id : Nat) : Permits :=
  { p with queues := p.queues.map (·.leave id) }

def ticket? (p : Permits) (id : Nat) : Option Ticket :=
  p.queues.findSome? (·.tickets.lookup id)

/-- The free permits of each known destination, in the order of their names. -/
def free (p : Permits) : List (String × Nat) :=
  (p.queues.map fun q => (q.key, q.free)).mergeSort fun a b => a.1 ≤ b.1

end Permits

end ServiceCall
