import ServiceCall.Text.Blank

/-!
# Trace context

What a request tells the server about the trace it belongs to: the trace, the span that sends the
request, and eight flags. The written form is `00-`, the trace in 32 hexadecimal digits, the span
in 16, and the flags in 2.
-/

namespace ServiceCall

/-- An identifier of so many bits, which is never zero. -/
structure TraceId (bits : Nat) where
  value : Nat
  pos : 0 < value
  lt : value < 1 <<< bits
  deriving DecidableEq, Repr

namespace TraceId

def ofNat? (bits n : Nat) : Option (TraceId bits) :=
  if h : 0 < n ∧ n < 1 <<< bits then some ⟨n, h.1, h.2⟩ else none

/-- The identifier that the number `n` draws. -/
def drawn (bits n : Nat) (h : 1 < 1 <<< bits := by decide) : TraceId bits :=
  ⟨n % (1 <<< bits - 1) + 1, Nat.succ_pos _, by
    have := Nat.mod_lt n (Nat.sub_pos_of_lt h)
    omega⟩

def ofTraceDraw (n : Nat) : TraceId 128 := drawn 128 n

def ofSpanDraw (n : Nat) : TraceId 64 := drawn 64 n

end TraceId

structure TraceContext where
  trace : TraceId 128
  span : TraceId 64
  flags : Nat
  flags_lt : flags < 256
  deriving DecidableEq, Repr

namespace TraceContext

/-- The beginning of a trace, which is sampled. -/
def root (trace : TraceId 128) (span : TraceId 64) : TraceContext :=
  ⟨trace, span, 1, by decide⟩

/-- The same trace with another span. -/
def child (t : TraceContext) (span : TraceId 64) : TraceContext := { t with span }

def isSampled (t : TraceContext) : Bool := t.flags % 2 = 1

def traceText (t : TraceContext) : String := String.ofList (Text.hexDigits 32 t.trace.value)

def spanText (t : TraceContext) : String := String.ofList (Text.hexDigits 16 t.span.value)

def chars (t : TraceContext) : List Char :=
  ['0', '0', '-'] ++ Text.hexDigits 32 t.trace.value ++ '-' ::
    Text.hexDigits 16 t.span.value ++ '-' :: Text.hexDigits 2 t.flags

def text (t : TraceContext) : String := String.ofList t.chars

def isLowerHex (c : Char) : Bool := ('0' ≤ c && c ≤ '9') || ('a' ≤ c && c ≤ 'f')

/-- The number that exactly `width` lowercase hexadecimal digits spell. -/
def field? (width : Nat) (cs : List Char) : Option Nat :=
  if cs.length = width && cs.all isLowerHex then Text.hexNumber? cs else none

/-- The context that a text gives between blanks. -/
def parse? (s : String) : Option TraceContext :=
  match Text.splitChars '-' (Text.trimChars s.toList) with
  | [['0', '0'], trace, span, flags] => do
    let trace ← TraceId.ofNat? 128 (← field? 32 trace)
    let span ← TraceId.ofNat? 64 (← field? 16 span)
    let flags ← field? 2 flags
    if h : flags < 256 then some ⟨trace, span, flags, h⟩ else none
  | _ => none

end TraceContext

end ServiceCall
