import ServiceCall.Text.Blank
import ServiceCall.Text.Unprintable
import ServiceCall.Text.Combining

/-!
# Quoted text

The form in which a message shows a text it does not trust: between quotes, on one line, with
everything that would not show, or would attach to its neighbour, written as a code point.
-/

namespace ServiceCall.Text

def quotedChar (c : Char) : List Char :=
  if c = '"' then ['\\', '"']
  else if c = '\\' then ['\\', '\\']
  else if c = '\n' then ['\\', 'n']
  else if c = '\t' then ['\\', 't']
  else if c = '\r' then ['\\', 'r']
  else if c = '\x00' then ['\\', '0']
  else if combining.contains c || unprintable.contains c then
    ['\\', 'u', '\x7b'] ++ Nat.toDigits 16 c.toNat ++ ['\x7d']
  else [c]

/-- The text between quotes, with every character that needs it escaped. -/
def quoted (s : String) : String :=
  String.ofList ('"' :: s.toList.flatMap quotedChar ++ ['"'])

end ServiceCall.Text
