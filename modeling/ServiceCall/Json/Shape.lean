import ServiceCall.Json.Parser
import ServiceCall.Json.Printer
import ServiceCall.Text.Quoted

/-!
# JSON of a given shape

Reading a text as a value of a known shape. A record may be written as an object, whose unknown
fields are skipped, or as a list of its fields in order. A text of another shape is refused with
what was found and what was expected.
-/

namespace ServiceCall.Json

inductive Shape where
  | uint32
  | string
  | optional (inner : Shape)
  | list (item : Shape)
  | record (name : String) (fields : List (String × Shape))

namespace Shape

def fieldCountText (n : Nat) : String :=
  toString n ++ if n = 1 then " element" else " elements"

/-- How a refusal names the shape. -/
def expectation : Shape → String
  | .uint32 => "u32"
  | .string => "a string"
  | .optional _ => "option"
  | .list _ => "a sequence"
  | .record name _ => "struct " ++ name

end Shape

def Number.description : Number → String
  | .integer n => "integer `" ++ toString n.value ++ "`"
  | .float x => "floating point `" ++ x.text ++ "`"

namespace Cursor

/-- Reads the beginning of a value that has the wrong shape, far enough to name it. -/
def foundInstead (c : Cursor) : Reading (String × Cursor) :=
  match c.peek? with
  | none => .error (c.peekError .expectedValue)
  | some b =>
    if b = 'n'.toUInt8 then do
      return ("null", ← c.skip.expectWord ['u', 'l', 'l'])
    else if b = 't'.toUInt8 then do
      return ("boolean `true`", ← c.skip.expectWord ['r', 'u', 'e'])
    else if b = 'f'.toUInt8 then do
      return ("boolean `false`", ← c.skip.expectWord ['a', 'l', 's', 'e'])
    else if b = '-'.toUInt8 then do
      let (n, c) ← c.skip.number false
      return (n.description, c)
    else if isDigit b then do
      let (n, c) ← c.number true
      return (n.description, c)
    else if b = '"'.toUInt8 then do
      let (s, c) ← c.skip.string
      return ("string " ++ Text.quoted s, c)
    else if b = '['.toUInt8 then .ok ("sequence", c)
    else if b = '\x7b'.toUInt8 then .ok ("map", c)
    else .error (c.peekError .expectedValue)

def invalidType (c : Cursor) (expected : String) : ReadError :=
  match c.foundInstead with
  | .error e => e
  | .ok (found, c) =>
    c.error (.mismatch ("invalid type: " ++ found ++ ", expected " ++ expected))

/-! ## Skipping a value of any shape -/

def ignoreExponent (c : Cursor) : Reading Cursor :=
  let c := c.skip
  let c := if c.peek? = some '+'.toUInt8 || c.peek? = some '-'.toUInt8 then c.skip else c
  if c.peek?.any isDigit then .ok (c.skipWhile isDigit)
  else .error (c.skip.error .invalidNumber)

def ignoreFraction (c : Cursor) : Reading Cursor :=
  let c := c.skip
  if c.peek?.any isDigit then
    let c := c.skipWhile isDigit
    if c.peek?.any isExponentMark then c.ignoreExponent else .ok c
  else .error (c.peekError .invalidNumber)

/-- A number whose sign has been read. -/
def ignoreNumber (c : Cursor) : Reading Cursor :=
  let tail (c : Cursor) : Reading Cursor :=
    if c.peek? = some '.'.toUInt8 then c.ignoreFraction
    else if c.peek?.any isExponentMark then c.ignoreExponent
    else .ok c
  if c.peek? = some '0'.toUInt8 then
    if c.skip.peek?.any isDigit then .error (c.skip.peekError .invalidNumber) else tail c.skip
  else if c.peek?.any isDigit then tail (c.skipWhile isDigit)
  else .error (c.skip.error .invalidNumber)

/-- A string whose opening quote has been read; its characters are not looked at. -/
def ignoreString : (fuel : Nat) → Cursor → Reading Cursor
  | 0, c => .error (c.error .endInString)
  | fuel + 1, c =>
    match c.peek? with
    | none => .error (c.error .endInString)
    | some b =>
      if b = '"'.toUInt8 then .ok c.skip
      else if b = '\\'.toUInt8 then
        let c := c.skip
        match c.peek? with
        | none => .error (c.error .endInString)
        | some b =>
          if (shortEscape? b).isSome then ignoreString fuel c.skip
          else if b = 'u'.toUInt8 then do
            let (_, c) ← c.skip.codeUnit
            ignoreString fuel c
          else .error (c.skip.error .invalidEscape)
      else if b < 0x20 then .error (c.error .controlCharacter)
      else ignoreString fuel c.skip

/-- What a list or object that is being skipped is. -/
inductive Frame where
  | list
  | object
  deriving DecidableEq

def Frame.closing : Frame → UInt8
  | .list => ']'.toUInt8
  | .object => '\x7d'.toUInt8

def Frame.missing : Frame → Problem
  | .list => .expectedCommaOrBracket
  | .object => .expectedCommaOrBrace

def Frame.unfinished : Frame → Problem
  | .list => .endInList
  | .object => .endInObject

/-- The name of a field that is being skipped, with its colon. -/
def ignoreName (c : Cursor) : Reading Cursor := do
  let c := c.skipSpace
  match c.peek? with
  | none => .error (c.peekError .endInObject)
  | some b =>
    if b ≠ '"'.toUInt8 then .error (c.peekError .keyNotString)
    else
      let c ← c.skip.ignoreString (c.rest.length + 1)
      c.colon

/-- What is being skipped: a value, or what stands behind the beginning of a list or object or
behind an item of it. -/
inductive Skipping where
  | value
  | inside (afterItem : Bool)

/-- Skips a value at the cursor, and then whatever is open around it. -/
def ignoreFrom : (fuel : Nat) → Skipping → List Frame → Cursor → Reading Cursor
  | 0, _, _, c => .error (c.error .endInValue)
  | fuel + 1, .value, frames, c =>
    let c := c.skipSpace
    let scalar (r : Reading Cursor) : Reading Cursor := do
      ignoreFrom fuel (.inside true) frames (← r)
    match c.peek? with
    | none => .error (c.peekError .endInValue)
    | some b =>
      if b = 'n'.toUInt8 then scalar (c.skip.expectWord ['u', 'l', 'l'])
      else if b = 't'.toUInt8 then scalar (c.skip.expectWord ['r', 'u', 'e'])
      else if b = 'f'.toUInt8 then scalar (c.skip.expectWord ['a', 'l', 's', 'e'])
      else if b = '-'.toUInt8 then scalar c.skip.ignoreNumber
      else if isDigit b then scalar c.ignoreNumber
      else if b = '"'.toUInt8 then scalar (c.skip.ignoreString (c.rest.length + 1))
      else if b = '['.toUInt8 then ignoreFrom fuel (.inside false) (.list :: frames) c.skip
      else if b = '\x7b'.toUInt8 then
        ignoreFrom fuel (.inside false) (.object :: frames) c.skip
      else .error (c.peekError .expectedValue)
  | _ + 1, .inside _, [], c => .ok c
  | fuel + 1, .inside afterItem, frame :: frames, c =>
    let c := c.skipSpace
    let next (c : Cursor) : Reading Cursor :=
      match frame with
      | .list => ignoreFrom fuel .value (frame :: frames) c
      | .object => do ignoreFrom fuel .value (frame :: frames) (← c.ignoreName)
    match c.peek? with
    | none => .error (c.peekError frame.unfinished)
    | some b =>
      if b = frame.closing then ignoreFrom fuel (.inside true) frames c.skip
      else if !afterItem then next c
      else if b = ','.toUInt8 then next c.skip
      else .error (c.peekError frame.missing)

def ignoreValue (c : Cursor) : Reading Cursor :=
  ignoreFrom (2 * c.rest.length + 2) .value [] c

/-! ## The closing bracket behind a value that is already known -/

/-- Behind the bracket, or the place and problem where it is missing. -/
def closeList (c : Cursor) : Except (Cursor × ReadError) Cursor :=
  let c := c.skipSpace
  match c.peek? with
  | none => .error (c, c.peekError .endInList)
  | some b =>
    if b = ']'.toUInt8 then .ok c.skip
    else if b = ','.toUInt8 then
      let c := c.skip.skipSpace
      if c.peek? = some ']'.toUInt8 then .error (c, c.peekError .trailingComma)
      else .error (c, c.peekError .trailingCharacters)
    else .error (c, c.peekError .trailingCharacters)

def closeObject (c : Cursor) : Except (Cursor × ReadError) Cursor :=
  let c := c.skipSpace
  match c.peek? with
  | none => .error (c, c.peekError .endInObject)
  | some b =>
    if b = '\x7d'.toUInt8 then .ok c.skip
    else if b = ','.toUInt8 then .error (c, c.peekError .trailingComma)
    else .error (c, c.peekError .trailingCharacters)

/-- A complaint about the fields as a whole is placed where the closing bracket was looked for. -/
def settle (complaint? : Option String) (value : Json)
    (closed : Except (Cursor × ReadError) Cursor) : Reading (Json × Cursor) :=
  match complaint?, closed with
  | some m, .ok c => .error (c.error (.mismatch m))
  | some m, .error (c, _) => .error (c.error (.mismatch m))
  | none, .ok c => .ok (value, c)
  | none, .error (_, e) => .error e

/-! ## Values of a shape -/

def uint32 (c : Cursor) : Reading (Json × Cursor) := do
  let c := c.skipSpace
  match c.peek? with
  | none => .error (c.peekError .endInValue)
  | some b =>
    if b = '-'.toUInt8 || isDigit b then
      let (n, c) ←
        if b = '-'.toUInt8 then c.skip.number false else c.number true
      match n with
      | .integer i =>
        if 0 ≤ i.value && i.value < 4294967296 then .ok (.number n, c)
        else
          .error (c.error (.mismatch ("invalid value: " ++ n.description ++ ", expected u32")))
      | .float _ =>
        .error (c.error (.mismatch ("invalid type: " ++ n.description ++ ", expected u32")))
    else .error (c.invalidType Shape.uint32.expectation)

def stringValue (c : Cursor) : Reading (Json × Cursor) := do
  let c := c.skipSpace
  match c.peek? with
  | none => .error (c.peekError .endInValue)
  | some b =>
    if b = '"'.toUInt8 then
      let (s, c) ← c.skip.string
      return (.string s, c)
    else .error (c.invalidType Shape.string.expectation)

/-- What has been read of a record's fields, and a complaint that ends the reading. -/
structure Fields where
  values : List (String × Json)
  complaint? : Option String

/-- The values in the order of the fields; a field that may be absent is null. -/
def missingField? (fields : List (String × Shape)) (values : List (String × Json)) :
    Option String :=
  fields.findSome? fun (name, shape) =>
    match shape with
    | .optional _ => none
    | _ => if (values.lookup name).isNone then some name else none

def withAbsent (fields : List (String × Shape)) (values : List (String × Json)) : Json :=
  Json.ofFields (fields.map fun (name, _) => (name, (values.lookup name).getD .null))

mutual

/-- One value of a shape; `room` more levels of lists and objects may be opened. -/
def shaped : (fuel room : Nat) → Shape → Cursor → Reading (Json × Cursor)
  | 0, _, _, c => .error (c.error .endInValue)
  | _ + 1, _, .uint32, c => c.uint32
  | _ + 1, _, .string, c => c.stringValue
  | fuel + 1, room, .optional inner, c => do
    let c := c.skipSpace
    if c.peek? = some 'n'.toUInt8 then
      return (.null, ← c.skip.expectWord ['u', 'l', 'l'])
    else shaped fuel room inner c
  | fuel + 1, room, .list item, c =>
    let c := c.skipSpace
    match c.peek? with
    | none => .error (c.peekError .endInValue)
    | some b =>
      if b = '['.toUInt8 then
        match room with
        | 0 => .error (c.peekError .tooDeep)
        | room + 1 => do
          let (items, c) ← shapedItems fuel room item true c.skip
          return (.array items, c)
      else .error (c.invalidType (Shape.list item).expectation)
  | fuel + 1, room, .record name fields, c =>
    let c := c.skipSpace
    match c.peek? with
    | none => .error (c.peekError .endInValue)
    | some b =>
      if b = '['.toUInt8 then
        match room with
        | 0 => .error (c.peekError .tooDeep)
        | room + 1 => do
          let ((values, count), c) ← positional fuel room fields true c.skip
          if count < fields.length then
            settle
              (some ("invalid length " ++ toString count ++ ", expected struct " ++ name ++
                " with " ++ Shape.fieldCountText fields.length))
              .null c.closeList
          else settle none (Json.ofFields values) c.closeList
      else if b = '\x7b'.toUInt8 then
        match room with
        | 0 => .error (c.peekError .tooDeep)
        | room + 1 => do
          let (found, c) ← named fuel room fields [] true c.skip
          let complaint? := found.complaint?.or
            ((missingField? fields found.values).map fun n => "missing field `" ++ n ++ "`")
          settle complaint? (withAbsent fields found.values) c.closeObject
      else .error (c.invalidType (Shape.record name fields).expectation)

def shapedItems : (fuel room : Nat) → Shape → (first : Bool) → Cursor →
    Reading (List Json × Cursor)
  | 0, _, _, _, c => .error (c.error .endInList)
  | fuel + 1, room, item, first, c => do
    let (more, c) ← c.nextItem first
    if more then
      let (v, c) ← shaped fuel room item c
      let (rest, c) ← shapedItems fuel room item false c
      return (v :: rest, c)
    else return ([], c)

/-- The fields of a record in their order, as far as the list goes; the list is not closed. -/
def positional : (fuel room : Nat) → List (String × Shape) → (first : Bool) → Cursor →
    Reading ((List (String × Json) × Nat) × Cursor)
  | 0, _, _, _, c => .error (c.error .endInList)
  | _ + 1, _, [], _, c => .ok (([], 0), c)
  | fuel + 1, room, (name, shape) :: fields, first, c => do
    let (more, next) ← c.nextItem first
    if more then
      let (v, c) ← shaped fuel room shape next
      let ((values, count), c) ← positional fuel room fields false c
      return (((name, v) :: values, count + 1), c)
    else return (([], 0), c)

/-- The fields of an object; the object is not closed. A repeated field ends the reading. -/
def named : (fuel room : Nat) → List (String × Shape) → (values : List (String × Json)) →
    (first : Bool) → Cursor → Reading (Fields × Cursor)
  | 0, _, _, _, _, c => .error (c.error .endInObject)
  | fuel + 1, room, fields, values, first, c => do
    let (more, next) ← c.nextField first
    if more then
      let (name, c) ← next.string
      match fields.lookup name with
      | some shape =>
        if (values.lookup name).isSome then
          return (⟨values, some ("duplicate field `" ++ name ++ "`")⟩, c)
        else
          let c ← c.colon
          let (v, c) ← shaped fuel room shape c
          named fuel room fields (values ++ [(name, v)]) false c
      | none =>
        let c ← c.colon
        let c ← c.ignoreValue
        named fuel room fields values false c
    else return (⟨values, none⟩, c)

end

end Cursor

/-- The value of the given shape that `bytes` spell. -/
def parseAs (shape : Shape) (bytes : Bytes) : Reading Json := do
  let (v, c) ← Cursor.shaped (2 * bytes.length + 2) Cursor.maxDepth shape (Cursor.ofBytes bytes)
  c.finish
  return v

end ServiceCall.Json
