import ServiceCall.Call.Run
import ServiceCall.Rehearsal.Exchange

/-!
# Calls in a rehearsal

One call after the other, or several at once.
-/

namespace ServiceCall.Rehearsal

def attempt (c : Call) (a : Attempt) (r : Rehearsal) : Ending × Rehearsal :=
  let (x, r) := r.ask c a
  x.follow Exchange.maxSteps r

/-- The world that a rehearsal is for a call. -/
def world : World Rehearsal where
  now := now
  cooldown r := r.traffic.cooldown
  random := random
  attempt := attempt
  sleep := sleep

def newRoot (r : Rehearsal) : TraceContext × Rehearsal :=
  let (trace, r) := r.random
  let (span, r) := r.random
  (.root (.ofTraceDraw trace) (.ofSpanDraw span), r)

/-- The end of a call that cannot be started. -/
def notStarted {α : Type} (error : CallError) : CallEnd α := ⟨.error error, .empty⟩

/-- A whole call; nothing if it makes more than `fuel` attempts. -/
def call {α : Type} (r : Rehearsal) (client : Client) (request : Request) (decode : Decoder α)
    (fuel : Nat) : Option (CallEnd α × Rehearsal) :=
  let (root, r) := r.newRoot
  match Call.start client request r.now root with
  | .error error => some (notStarted error, r)
  | .ok c => c.perform world decode fuel r

/-- A whole call, if there is a request for it. -/
def callWith {α : Type} (r : Rehearsal) (client : Client) (request : Except CallError Request)
    (decode : Decoder α) (fuel : Nat) : Option (CallEnd α × Rehearsal) :=
  match request with
  | .error error => some (notStarted error, r)
  | .ok request => r.call client request decode fuel

/-- Whether the call could not go on at its first attempt, since it asked for a permit and there
cannot be as many permits as the client allows. -/
def crashes {α : Type} (r : Rehearsal) (e : CallEnd α) : Bool :=
  0 < e.attempts && !r.traffic.permits.canAcquire

/-- The time after a call for an idle connection to get back into the pool. -/
def breath : Duration := .ofMillis 6

/-- Time passes in which the client does nothing. -/
def rest (r : Rehearsal) (client : Client) (d : Duration) : Rehearsal :=
  (r.sleep d).expire client.poolIdleTimeout

/-- So many calls one after the other, each with the same request. -/
def calls {α : Type} (client : Client) (request : Request) (decode : Decoder α) (fuel : Nat) :
    (times : Nat) → Rehearsal → Option (List (CallEnd α) × Rehearsal)
  | 0, r => some ([], r)
  | times + 1, r => do
    let (e, r) ← r.call client request decode fuel
    let (ends, r) ← calls client request decode fuel times (r.rest client breath)
    return (e :: ends, r)

/-- The requests that arrived since an earlier point of the rehearsal. -/
def receivedSince (r earlier : Rehearsal) : List PhysicalRequest :=
  r.received.drop earlier.received.length

/-! ## The pool -/

def snapshot (r : Rehearsal) : Snapshot := r.traffic.gauges.snapshot

def scraped (r : Rehearsal) : Rehearsal := { r with traffic := r.traffic.scraped }

def poolJournal (r : Rehearsal) (client : Client) : Journal :=
  .ofMetrics (r.snapshot.events [⟨"client", client.name⟩])

def closeJournal : Journal := .line .debug "Closed idle connections"

/-! ## Several calls at once -/

inductive Phase (α : Type) where
  /-- The next attempt begins then, after so many. -/
  | resting (made : Nat) (wake : Instant)
  | attempting (a : Attempt) (x : Exchange)
  | ended (e : CallEnd α)

structure Member (α : Type) where
  call : Call
  phase : Phase α
  journal : Journal

namespace Member

variable {α : Type}

def wake? (m : Member α) (r : Rehearsal) : Option Instant :=
  match m.phase with
  | .resting _ wake => some wake
  | .attempting _ x => x.wake? r
  | .ended _ => none

def end? (m : Member α) : Option (CallEnd α) :=
  match m.phase with
  | .ended e => some e
  | _ => none

def conclude (m : Member α) (r : Rehearsal) (result : Except CallError (Response α)) :
    Member α :=
  let e := (CallEnd.mk result m.journal).reported m.call (r.now.since m.call.startedAt)
  { m with phase := .ended e, journal := e.journal }

def begin (m : Member α) (r : Rehearsal) (made : Nat) : Member α × Rehearsal :=
  let (span, r) := r.random
  match m.call.gate r.traffic.cooldown made r.now (.ofSpanDraw span) with
  | .refused error =>
    ({ m with journal := m.journal ++ Call.refusalJournal error }.conclude r (.error error), r)
  | .admitted a =>
    let (x, r) := r.ask m.call a
    ({ m with phase := .attempting a x }, r)

def react (m : Member α) (r : Rehearsal) (decode : Decoder α) (a : Attempt) (ending : Ending) :
    Member α × Rehearsal :=
  let (draw, r) := r.random
  let (next, journal) := m.call.react decode a ending r.now (.ofNat draw)
  let m := { m with journal := m.journal ++ journal }
  match next with
  | .ended result => (m.conclude r result, r)
  | .again delay => ({ m with phase := .resting a.number (r.now.after delay) }, r)

def step (m : Member α) (r : Rehearsal) (decode : Decoder α) : Member α × Rehearsal :=
  match m.phase with
  | .resting made _ => m.begin r made
  | .attempting a x =>
    let (x, r) := x.step r
    match x.ending? with
    | some ending => m.react r decode a ending
    | none => ({ m with phase := .attempting a x }, r)
  | .ended _ => (m, r)

end Member

/-- The first of the members that something happens to earliest, and when. -/
def nextMember? {α : Type} (r : Rehearsal) (members : List (Member α)) :
    Option (Nat × Instant) :=
  (members.zipIdx.filterMap fun (m, i) => (m.wake? r).map fun t => (i, t)).foldl
    (fun best (i, t) => match best with
      | some (j, u) => if u ≤ t then some (j, u) else some (i, t)
      | none => some (i, t))
    none

/-- Lets everything happen in its order; nothing if that takes more than `fuel` steps. -/
def runAll {α : Type} (decode : Decoder α) :
    (fuel : Nat) → List (Member α) → Rehearsal → Option (List (Member α) × Rehearsal)
  | 0, _, _ => none
  | fuel + 1, members, r =>
    match nextMember? r members with
    | none => some (members, r)
    | some (i, t) =>
      match members[i]? with
      | none => some (members, r)
      | some m =>
        let (m, r) := m.step (r.moveTo t) decode
        runAll decode fuel (members.set i m) r

/-- The calls of several members that start now. -/
def members {α : Type} (client : Client) (request : Request) (target : Target) :
    (n : Nat) → Rehearsal → List (Member α) × Rehearsal
  | 0, r => ([], r)
  | n + 1, r =>
    let (root, r) := r.newRoot
    let call := Call.startAt client request target r.now root
    let (rest, r) := members client request target n r
    (⟨call, .resting 0 r.now, .empty⟩ :: rest, r)

/-- So many calls at once, each with the same request; nothing if they take more than `fuel`
steps. -/
def crowd {α : Type} (r : Rehearsal) (client : Client) (request : Request) (decode : Decoder α)
    (n fuel : Nat) : Option (List (CallEnd α) × Rehearsal) :=
  match client.target request with
  | .error error => some (List.replicate n (notStarted error), r)
  | .ok target => do
    let (started, r) := members client request target n r
    let (ended, r) ← runAll decode fuel started r
    return (ended.filterMap Member.end?, r.rest client breath)

end ServiceCall.Rehearsal
