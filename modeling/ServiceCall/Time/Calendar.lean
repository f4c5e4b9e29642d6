import ServiceCall.Text.Blank

/-!
# Dates in headers

The three forms in which a header may give a date and time of day. A date counts only if the
calendar has it and the weekday is right; years run from 1970 to 9999.
-/

namespace ServiceCall

/-- A date and time of day, as written. -/
structure CalendarTime where
  year : Nat
  month : Nat
  day : Nat
  hour : Nat
  minute : Nat
  second : Nat
  /-- Monday is 1, Sunday 7. -/
  weekday : Nat
  deriving DecidableEq, Repr

namespace CalendarTime

/-! ## The calendar -/

def isLeapYear (y : Nat) : Bool := y % 4 = 0 && (y % 100 ≠ 0 || y % 400 = 0)

def monthLengths (y : Nat) : List Nat :=
  [31, if isLeapYear y then 29 else 28, 31, 30, 31, 30, 31, 31, 30, 31, 30, 31]

def daysInMonth (y m : Nat) : Nat := (monthLengths y).getD (m - 1) 0

/-- The days from the beginning of the count to the beginning of year `y`, which is positive. -/
def daysBeforeYear (y : Nat) : Nat :=
  let p := y - 1
  365 * p + p / 4 - p / 100 + p / 400

def daysBeforeMonth (y m : Nat) : Nat :=
  ((monthLengths y).take (m - 1)).foldl (fun days length => days + length) 0

/-- The days since the first of January 1970. -/
def dayNumber (t : CalendarTime) : Nat :=
  daysBeforeYear t.year - daysBeforeYear 1970 + daysBeforeMonth t.year t.month + (t.day - 1)

/-- The first day of 1970 was a Thursday. -/
def weekdayOf (dayNumber : Nat) : Nat := (dayNumber + 3) % 7 + 1

def IsValid (t : CalendarTime) : Prop :=
  1970 ≤ t.year ∧ t.year ≤ 9999 ∧ 1 ≤ t.month ∧ t.month ≤ 12 ∧
    1 ≤ t.day ∧ t.day ≤ daysInMonth t.year t.month ∧
    t.hour < 24 ∧ t.minute < 60 ∧ t.second < 60 ∧ t.weekday = weekdayOf t.dayNumber

instance (t : CalendarTime) : Decidable t.IsValid := by unfold IsValid; infer_instance

def toSeconds (t : CalendarTime) : Nat :=
  ((t.dayNumber * 24 + t.hour) * 60 + t.minute) * 60 + t.second

/-! ## Written forms -/

def monthNames : List String :=
  ["Jan", "Feb", "Mar", "Apr", "May", "Jun", "Jul", "Aug", "Sep", "Oct", "Nov", "Dec"]

def weekdayNames : List String :=
  ["Monday", "Tuesday", "Wednesday", "Thursday", "Friday", "Saturday", "Sunday"]

/-- The number of a name, counted from 1, given with what stands around it. -/
def numberOf? (names : List (List Char)) (cs : List Char) : Option Nat :=
  (names.findIdx? (· = cs)).map (· + 1)

def monthNamed? (before after : Char) (cs : List Char) : Option Nat :=
  numberOf? (monthNames.map fun n => before :: n.toList ++ [after]) cs

def shortWeekdayNamed? (after cs : List Char) : Option Nat :=
  numberOf? (weekdayNames.map fun n => n.toList.take 3 ++ after) cs

def slice (i j : Nat) (cs : List Char) : List Char := (cs.take j).drop i

def number? (i j : Nat) (cs : List Char) : Option Nat := Text.digitsNumber? (slice i j cs)

/-- A form such as `Sun, 06 Nov 1994 08:49:37 GMT`. -/
def fixedForm? (cs : List Char) : Option CalendarTime := do
  guard (cs.length = 29 && cs.drop 25 = " GMT".toList && cs[16]? = some ' ' &&
    cs[19]? = some ':' && cs[22]? = some ':')
  return {
    second := ← number? 23 25 cs
    minute := ← number? 20 22 cs
    hour := ← number? 17 19 cs
    day := ← number? 5 7 cs
    month := ← monthNamed? ' ' ' ' (slice 7 12 cs)
    year := ← number? 12 16 cs
    weekday := ← shortWeekdayNamed? [',', ' '] (slice 0 5 cs) }

/-- The weekday that is written out in front, and what follows it. -/
def leadingWeekday? (cs : List Char) : Option (Nat × List Char) :=
  weekdayNames.zipIdx.findSome? fun (name, i) =>
    let start := name.toList ++ [',', ' ']
    if start.isPrefixOf cs then some (i + 1, cs.drop start.length) else none

/-- A form such as `Sunday, 06-Nov-94 08:49:37 GMT`. Years below 70 are of this century. -/
def dashedForm? (cs : List Char) : Option CalendarTime := do
  let (weekday, cs) ← leadingWeekday? cs
  guard (cs.length = 22 && cs[12]? = some ':' && cs[15]? = some ':' &&
    cs.drop 18 = " GMT".toList)
  let year ← number? 7 9 cs
  return {
    second := ← number? 16 18 cs
    minute := ← number? 13 15 cs
    hour := ← number? 10 12 cs
    day := ← number? 0 2 cs
    month := ← monthNamed? '-' '-' (slice 2 7 cs)
    year := if year < 70 then 2000 + year else 1900 + year
    weekday }

/-- A form such as `Sun Nov  6 08:49:37 1994`. -/
def plainForm? (cs : List Char) : Option CalendarTime := do
  guard (cs.length = 24 && cs[10]? = some ' ' && cs[13]? = some ':' && cs[16]? = some ':' &&
    cs[19]? = some ' ')
  return {
    second := ← number? 17 19 cs
    minute := ← number? 14 16 cs
    hour := ← number? 11 13 cs
    day := ← if cs[8]? = some ' ' then number? 9 10 cs else number? 8 10 cs
    month := ← monthNamed? ' ' ' ' (' ' :: slice 4 8 cs)
    year := ← number? 20 24 cs
    weekday := ← shortWeekdayNamed? [' '] (slice 0 4 cs) }

def parse? (s : String) : Option CalendarTime :=
  let cs := Text.trimChars s.toList
  ((fixedForm? cs).or ((dashedForm? cs).or (plainForm? cs))).filter (·.IsValid)

end CalendarTime

end ServiceCall
