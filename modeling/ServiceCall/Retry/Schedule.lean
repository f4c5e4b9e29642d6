import ServiceCall.Time.Duration

/-!
# Retry schedules

How long to wait after a failed attempt before the next one, and after how many retries to give
up. Attempts are counted from 1.
-/

namespace ServiceCall

inductive Schedule where
  | never
  /-- The wait doubles from `first` up to `cap`. With jitter it is drawn from its upper half. -/
  | exponential (first cap : Duration) (limit : Option Nat) (jitter : Bool)
  | steady (wait : Duration) (limit : Nat)
  /-- A wait for each failed attempt, until there is none. -/
  | custom (wait? : Nat → Option Duration)

namespace Schedule

/-- 50 ms doubling up to 5 s with jitter, for as long as the call may take. -/
def standard : Schedule := .exponential (.ofMillis 50) (.ofSecs 5) none true

def drawSteps : Nat := 1 <<< 53

/-- A random number for the jitter. -/
abbrev Draw := Fin (drawSteps + 1)

/-- Part of a wait, from half of it at the lowest draw up to all of it at the highest. -/
def jittered (draw : Draw) (d : Duration) : Duration :=
  d.portion (drawSteps + draw.val) (2 * drawSteps)

def maxDoublings : Nat := 31

/-- The wait after the failed attempt `attempt` before any jitter. -/
def fullDelay? (s : Schedule) (attempt : Nat) : Option Duration :=
  match s with
  | .never => none
  | .exponential first cap limit _ =>
    if limit.any (attempt > ·) then none
    else some (min (first.times (1 <<< min (attempt - 1) maxDoublings)) cap)
  | .steady wait limit => if attempt ≤ limit then some wait else none
  | .custom wait? => wait? attempt

def hasJitter : Schedule → Bool
  | .exponential _ _ _ jitter => jitter
  | _ => false

/-- The wait after the failed attempt `attempt`, or nothing once the retries are used up. -/
def delay? (s : Schedule) (draw : Draw) (attempt : Nat) : Option Duration :=
  (s.fullDelay? attempt).map fun d => if s.hasJitter then jittered draw d else d

/-- The number of retries, where the schedule limits it. -/
def limit? : Schedule → Option Nat
  | .never => some 0
  | .exponential _ _ limit _ => limit
  | .steady _ limit => some limit
  | .custom _ => none

end Schedule

end ServiceCall
