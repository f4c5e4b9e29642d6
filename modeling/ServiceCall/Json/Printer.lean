import ServiceCall.Json.Value
import ServiceCall.Number.Decimal
import ServiceCall.Text.Blank

/-!
# JSON text

The compact text of a value: no blanks, names in order, and only quotes, backslashes and control
characters escaped.
-/

namespace ServiceCall.Json

def escapedChar (c : Char) : List Char :=
  if c = '"' then ['\\', '"']
  else if c = '\\' then ['\\', '\\']
  else if c = '\x08' then ['\\', 'b']
  else if c = '\x0c' then ['\\', 'f']
  else if c = '\n' then ['\\', 'n']
  else if c = '\r' then ['\\', 'r']
  else if c = '\t' then ['\\', 't']
  else if c.toNat < 0x20 then '\\' :: 'u' :: Text.hexDigits 4 c.toNat
  else [c]

def stringChars (s : String) : List Char := '"' :: s.toList.flatMap escapedChar ++ ['"']

def Number.text : Number → String
  | .integer n => toString n.value
  | .float x => x.text

mutual

/-- The compact text of a value. -/
def chars : Json → List Char
  | .null => "null".toList
  | .bool true => "true".toList
  | .bool false => "false".toList
  | .number n => n.text.toList
  | .string s => stringChars s
  | .array items => '[' :: itemChars items ++ [']']
  | .object fields => '\x7b' :: fieldChars fields ++ ['\x7d']

def itemChars : List Json → List Char
  | [] => []
  | [v] => chars v
  | v :: rest => chars v ++ ',' :: itemChars rest

def fieldChars : List (String × Json) → List Char
  | [] => []
  | [(n, v)] => stringChars n ++ ':' :: chars v
  | (n, v) :: rest => stringChars n ++ ':' :: chars v ++ ',' :: fieldChars rest

end

def text (v : Json) : String := String.ofList (chars v)

end ServiceCall.Json
