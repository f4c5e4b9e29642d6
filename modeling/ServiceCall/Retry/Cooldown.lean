import ServiceCall.Http.Headers
import ServiceCall.Time.Calendar
import ServiceCall.Time.Instant

/-!
# Cool-down

A server that answers 429 asks not to be contacted for a while. The while is what its
`Retry-After` field says, in seconds or as a date, otherwise a fixed window; it never exceeds a
day. Only the last such answer counts.
-/

namespace ServiceCall

/-- The time from `now` until a date; nothing if the date is past. Both count from 1970. -/
def CalendarTime.delayFrom (t : CalendarTime) (now : Duration) : Duration :=
  (Duration.ofSecs t.toSeconds).minus now

/-- The delay that a `Retry-After` value asks for. -/
def retryDelay? (value : String) (now : Duration) : Option Duration :=
  match Text.numberBelow? 18446744073709551616 (Text.trimChars value.toList) with
  | some seconds => some (Duration.ofSecs seconds)
  | none => (CalendarTime.parse? value).map (·.delayFrom now)

def Http.Headers.retryAfter? (h : Http.Headers) (now : Duration) : Option Duration := do
  retryDelay? (← (← h.get? .retryAfter).text?) now

/-- A 429 that was seen, and the end of its window. -/
structure Throttle where
  observedAt : Instant
  endsAt : Instant
  deriving DecidableEq, Repr

structure Cooldown where
  window : Duration
  last : Option Throttle
  deriving DecidableEq, Repr

namespace Cooldown

def standardWindow : Duration := .ofSecs 10

def maxWindow : Duration := .ofSecs 86400

def ofWindow (window : Duration) : Cooldown := ⟨window, none⟩

/-- The window that a 429 with these headers imposes; `clock` is the time since 1970. -/
def windowFor (c : Cooldown) (h : Http.Headers) (clock : Duration) : Duration :=
  min ((h.retryAfter? clock).getD c.window) maxWindow

/-- Records a 429 seen at `now`, in place of any earlier one. -/
def observe (c : Cooldown) (h : Http.Headers) (now : Instant) (clock : Duration) : Cooldown :=
  { c with last := some ⟨now, now.after (c.windowFor h clock)⟩ }

/-- The time left in the window, if it has not ended. -/
def remaining? (c : Cooldown) (now : Instant) : Option Duration :=
  match c.last with
  | some t => if now < t.endsAt then some (t.endsAt.since now) else none
  | none => none

def lastThrottledAt? (c : Cooldown) : Option Instant := c.last.map (·.observedAt)

end Cooldown

end ServiceCall
