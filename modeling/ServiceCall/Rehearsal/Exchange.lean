import ServiceCall.Rehearsal.State

/-!
# Exchanges in a rehearsal

An attempt on its way: it waits for a permit, gets a connection, sends its request, and waits for
the reply. Each stage says when the next thing happens to it, and a step lets it happen.
-/

namespace ServiceCall.Rehearsal

inductive Stage where
  | queued
  /-- It waits until a connection has come about or failed. -/
  | connecting (timings : ConnectTimings) (done : Instant)
  /-- Its request is on the way to the peer. -/
  | sending (link : Nat) (done : Instant)
  /-- The peer has its request; the reply will arrive as a whole, if there is one. -/
  | awaiting (link : Nat) (reply : Option (Transmission × Instant))
  /-- A part of the answer has arrived, and the rest never will. -/
  | stalled (link : Nat) (record : Option ConnRecord)
  | ended (ending : Ending)

structure Exchange where
  client : Client
  request : PhysicalRequest
  target : Target
  cutoff : Option Instant
  /-- The number that its permit and its progress are kept under. -/
  id : Nat
  askedAt : Instant
  stage : Stage

def transportCause : String := "transport"

def ask (r : Rehearsal) (c : Call) (a : Attempt) : Exchange × Rehearsal :=
  ({ client := c.client
     request := c.physicalRequest a
     target := c.target
     cutoff := a.cutoff
     id := r.serial
     askedAt := r.now
     stage := .queued },
    { r with serial := r.serial + 1, traffic := r.traffic.ask r.serial c.target.poolKey })

namespace Exchange

/-- When the next thing happens to the exchange of itself. -/
def due? (x : Exchange) (r : Rehearsal) : Option Instant :=
  match x.stage with
  | .queued => if r.traffic.isGranted x.id then some r.now else none
  | .connecting _ done => some done
  | .sending _ done => some done
  | .awaiting _ reply => reply.map (·.2)
  | .stalled .. | .ended _ => none

/-- When the next thing happens to the exchange: of itself or because it is cut off. -/
def wake? (x : Exchange) (r : Rehearsal) : Option Instant :=
  match x.stage with
  | .ended _ => none
  | _ => Instant.earliest (x.due? r) x.cutoff

def ending? (x : Exchange) : Option Ending :=
  match x.stage with
  | .ended ending => some ending
  | _ => none

def link? (x : Exchange) : Option Nat :=
  match x.stage with
  | .sending link _ => some link
  | .awaiting link _ => some link
  | .stalled link _ => some link
  | _ => none

def record? (x : Exchange) : Option ConnRecord :=
  match x.stage with
  | .stalled _ record => record
  | _ => none

def finish (x : Exchange) (r : Rehearsal) (ending : Ending) : Exchange × Rehearsal :=
  ({ x with stage := .ended ending }, { r with traffic := r.traffic.finish x.id })

/-- The connection, if there is one, goes with the exchange. -/
def drop (x : Exchange) (r : Rehearsal) (ending : Ending) : Exchange × Rehearsal :=
  x.finish (x.link?.elim r r.close) ending

def cut (x : Exchange) (r : Rehearsal) : Exchange × Rehearsal := x.drop r (.cutOff x.record?)

def fail (x : Exchange) (r : Rehearsal) (record : Option ConnRecord) : Exchange × Rehearsal :=
  x.drop r (.broken false transportCause record)

/-! ## Up to the peer -/

/-- The permit is there: an idle connection is used, otherwise a new one. -/
def granted (x : Exchange) (r : Rehearsal) : Exchange × Rehearsal :=
  let r := { r with traffic := r.traffic.send x.id }.expire x.client.poolIdleTimeout
  match r.idleLink? (linkKey x.request.uri) with
  | some link =>
    ({ x with stage := .sending link.id (r.now.after sendTime) }, r.setPooled link.id none)
  | none =>
    let (timings, done) := connecting x.request.uri r.now
    ({ x with stage := .connecting timings done }, r)

def connected (x : Exchange) (r : Rehearsal) (timings : ConnectTimings) : Exchange × Rehearsal :=
  if r.network.connects x.request.uri then
    let (link, r) := r.connect x.request.uri timings
    ({ x with stage := .sending link (r.now.after sendTime) }, r)
  else x.finish r (.broken true transportCause none)

/-- The next reply of the script; when it has come to its end, connections get closed. -/
def nextReply (r : Rehearsal) : ScriptedReply × Rehearsal :=
  match r.script with
  | [] => (⟨.zero, .close⟩, r)
  | reply :: script => (reply, { r with script })

def delivered (x : Exchange) (r : Rehearsal) (link : Nat) : Exchange × Rehearsal :=
  let r := r.use link (·.wrote r.now)
  if r.network.misunderstands x.request.uri then
    ({ x with stage := .awaiting link (some (⟨[], true⟩, r.now.after replyTime)) }, r)
  else
    let (reply, r) := nextReply r
    let arrival := (r.now.after reply.delay).after replyTime
    let sent := (reply.reply.transmission? x.request.method).map fun t => (t, arrival)
    ({ x with stage := .awaiting link sent },
      { r with received := r.received ++ [x.request] })

/-! ## Back from the peer -/

def recordOf (x : Exchange) (r : Rehearsal) (link : Nat) : Option ConnRecord := do
  let link ← r.link? link
  return .classify link.host x.askedAt (← link.usage.current?) link.timings

/-- The client gives the connection back, unless the answer asks to close it. A connection that
is gone by then still counts as given back. -/
def release (r : Rehearsal) (link : Link) (h : Http.Headers) : Rehearsal :=
  match link.usage.current? with
  | some lease =>
    if Http.keepsAlive h then
      let (usage, change) := link.usage.released lease.obtainedAt r.now
      { r.setLink { link with usage } with traffic := r.traffic.addAvail change }
    else r
  | none => r

/-- What becomes of the connection once the answer has been read to its end. One that the peer
closes, or on which something else has arrived by then, is given back and then lost. -/
def settle (r : Rehearsal) (id : Nat) (head : Http.Head) (framing : Http.Framing)
    (lost : Bool) : Rehearsal :=
  match r.link? id with
  | none => r
  | some link =>
    if head.keepsConnection && framing ≠ .untilClose then
      let r := (release r link head.headers).setPooled id (some r.now)
      if lost then r.close id else r
    else release (r.close id) link head.headers

def complete (x : Exchange) (r : Rehearsal) (link : Nat) (lost : Bool) (head : Http.Head)
    (framing : Http.Framing) (body : Bytes) : Exchange × Rehearsal :=
  let record := x.recordOf r link
  let r := settle r link head framing lost
  let traffic := r.traffic.answered x.id
  let traffic :=
    if head.status = .tooManyRequests then traffic.throttled head.headers r.now r.clock
    else traffic
  x.finish { r with traffic }
    (.answered ⟨head.status, head.headers, body⟩ record (r.now.since x.askedAt))

def arrived (x : Exchange) (r : Rehearsal) (link : Nat) (t : Transmission) :
    Exchange × Rehearsal :=
  let r := r.use link fun u => (u.received r.now, 0)
  let stop (halt : Http.Halt) (record : Option ConnRecord) : Exchange × Rehearsal :=
    if halt = .incomplete && !t.closes then ({ x with stage := .stalled link record }, r)
    else x.fail r record
  match Http.Head.read t.bytes with
  | .error halt => stop halt none
  | .ok (head, rest) =>
    match Http.Framing.ofHead x.request.method head with
    | .error halt => stop halt none
    | .ok framing =>
      match framing.read t.closes rest with
      | .error halt => stop halt (x.recordOf r link)
      | .ok (body, behind) =>
        x.complete r link (t.closes || !behind.isEmpty) head framing body

/-! ## Steps -/

def step (x : Exchange) (r : Rehearsal) : Exchange × Rehearsal :=
  if (x.due? r).any (· ≤ r.now) then
    match x.stage with
    | .queued => x.granted r
    | .connecting timings _ => x.connected r timings
    | .sending link _ => x.delivered r link
    | .awaiting link (some (t, _)) => x.arrived r link t
    | _ => x.cut r
  else x.cut r

def maxSteps : Nat := 6

/-- Follows an exchange to its end. One that nothing would ever end is cut off. -/
def follow : (fuel : Nat) → Exchange → Rehearsal → Ending × Rehearsal
  | 0, x, r => (.cutOff x.record?, r)
  | fuel + 1, x, r =>
    match x.ending? with
    | some ending => (ending, r)
    | none =>
      let (x, r) := x.step ((x.wake? r).elim r r.moveTo)
      follow fuel x r

end Exchange

end ServiceCall.Rehearsal
