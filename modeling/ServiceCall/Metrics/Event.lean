import ServiceCall.Number.Binary64
import ServiceCall.Time.Duration

/-!
# Metrics

Named values with tags, in the order in which they were pushed.
-/

namespace ServiceCall

structure Tag where
  key : String
  value : String
  deriving DecidableEq, Repr

def Tag.text (t : Tag) : String := t.key ++ ":" ++ t.value

inductive MetricValue where
  | timing (d : Duration)
  | gauge (x : Binary64)
  | count (n : Int)
  deriving DecidableEq, Repr

structure MetricEvent where
  name : String
  value : MetricValue
  tags : List Tag
  deriving DecidableEq, Repr

namespace MetricEvent

def timing (name : String) (d : Duration) (tags : List Tag) : MetricEvent :=
  ⟨name, .timing d, tags⟩

/-- A gauge keeps its value in floating point. -/
def gauge (name : String) (n : Int) (tags : List Tag) : MetricEvent :=
  ⟨name, .gauge (Binary64.ofInt n), tags⟩

def count (name : String) (n : Int) (tags : List Tag) : MetricEvent := ⟨name, .count n, tags⟩

/-- The value of the first tag with this key. -/
def tag? (e : MetricEvent) (key : String) : Option String :=
  (e.tags.find? (·.key = key)).map (·.value)

def named (name : String) (events : List MetricEvent) : List MetricEvent :=
  events.filter (·.name = name)

end MetricEvent

end ServiceCall
