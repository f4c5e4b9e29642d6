import ServiceCall.Conn.Record

/-!
# Journal

What a call leaves behind for those who watch it: lines of a log, metrics, and the fields of
spans, each in the order in which it came up.
-/

namespace ServiceCall

inductive LogLevel where
  | debug
  | info
  | warn
  | error
  deriving DecidableEq, Repr

def LogLevel.label : LogLevel → String
  | .debug => "DEBUG"
  | .info => "INFO"
  | .warn => "WARN"
  | .error => "ERROR"

structure LogLine where
  level : LogLevel
  text : String
  deriving DecidableEq, Repr

structure Span where
  name : String
  fields : List (String × ConnRecord.FieldValue)
  deriving DecidableEq, Repr

structure Journal where
  log : List LogLine
  metrics : List MetricEvent
  /-- In the order in which the spans began. -/
  spans : List Span
  deriving DecidableEq, Repr

namespace Journal

def empty : Journal := ⟨[], [], []⟩

def line (level : LogLevel) (text : String) : Journal := ⟨[⟨level, text⟩], [], []⟩

def ofMetrics (events : List MetricEvent) : Journal := ⟨[], events, []⟩

def ofSpan (span : Span) : Journal := ⟨[], [], [span]⟩

def append (a b : Journal) : Journal :=
  ⟨a.log ++ b.log, a.metrics ++ b.metrics, a.spans ++ b.spans⟩

instance : Append Journal := ⟨append⟩

@[simp] theorem log_append (a b : Journal) : (a ++ b).log = a.log ++ b.log := rfl

@[simp] theorem metrics_append (a b : Journal) : (a ++ b).metrics = a.metrics ++ b.metrics := rfl

@[simp] theorem spans_append (a b : Journal) : (a ++ b).spans = a.spans ++ b.spans := rfl

end Journal

end ServiceCall
