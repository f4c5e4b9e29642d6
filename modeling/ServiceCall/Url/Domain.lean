import ServiceCall.Text.Unprintable
import ServiceCall.Url.Host
import ServiceCall.Url.Punycode

/-!
# Domain names

The ASCII form of a domain name: letters in lower case, every label with other characters in
Punycode behind `xn--`. A name with a character that no domain may have is refused.
-/

namespace ServiceCall.Url

def shifted (offset : Nat) (c : Char) : Char := Char.ofNat (c.toNat + offset)

/-- The lower case of the usual letters of the Latin, Greek, Cyrillic and Armenian alphabets; all
other characters stay. -/
def lowerLetter (c : Char) : Char :=
  let n := c.toNat
  if n < 0x80 then c.toLower
  else if (0xC0 ≤ n && n ≤ 0xDE && n ≠ 0xD7) then shifted 0x20 c
  else if n = 0x178 then 'ÿ'
  else if (0x100 ≤ n && n ≤ 0x137) || (0x14A ≤ n && n ≤ 0x177) || (0x1E00 ≤ n && n ≤ 0x1E95) ||
      (0x1EA0 ≤ n && n ≤ 0x1EFF) || (0x460 ≤ n && n ≤ 0x481) || (0x48A ≤ n && n ≤ 0x4BF) then
    if n % 2 = 0 && n ≠ 0x130 then shifted 1 c else c
  else if (0x139 ≤ n && n ≤ 0x148) || (0x179 ≤ n && n ≤ 0x17E) then
    if n % 2 = 1 then shifted 1 c else c
  else if n = 0x386 then 'ά'
  else if 0x388 ≤ n && n ≤ 0x38A then shifted 37 c
  else if n = 0x38C then 'ό'
  else if n = 0x38E || n = 0x38F then shifted 63 c
  else if (0x391 ≤ n && n ≤ 0x3AB && n ≠ 0x3A2) || (0x410 ≤ n && n ≤ 0x42F) then shifted 0x20 c
  else if 0x400 ≤ n && n ≤ 0x40F then shifted 80 c
  else if 0x531 ≤ n && n ≤ 0x556 then shifted 48 c
  else c

/-- Characters that vanish from a name: the soft hyphen, joiners and variation selectors. -/
def isIgnoredInDomain (c : Char) : Bool :=
  let n := c.toNat
  n = 0xAD || n = 0x34F || n = 0x200B || n = 0x2060 || n = 0xFEFF || (0xFE00 ≤ n && n ≤ 0xFE0F)

/-- What a character of a name stands for. -/
def mappedInDomain (c : Char) : List Char :=
  let n := c.toNat
  if isIgnoredInDomain c then []
  else if n = 0x3002 || n = 0xFF61 then ['.']
  else if 0xFF01 ≤ n && n ≤ 0xFF5E then [(Char.ofNat (n - 0xFEE0)).toLower]
  else [lowerLetter c]

def isAscii (cs : List Char) : Bool := cs.all (·.toNat < 0x80)

/-- A character that no domain may have. -/
def isRefusedInDomain (c : Char) : Bool :=
  isForbiddenInDomain c || (0x80 ≤ c.toNat && (Text.unprintable.contains c || c = '\ufffd'))

/-- Whether what a label in Punycode stands for could not be written otherwise. -/
def isMeaning (cs : List Char) : Bool :=
  !isAscii cs && cs.all fun c => mappedInDomain c = [c] && !isRefusedInDomain c

/-- A label in ASCII; one that claims to be Punycode has to stand for something else. -/
def asciiLabel (label : List Char) : Except Problem (List Char) :=
  match label with
  | 'x' :: 'n' :: '-' :: '-' :: code =>
    if isAscii label && (Punycode.decode? code).any isMeaning then .ok label
    else .error .internationalName
  | _ =>
    if isAscii label then .ok label
    else .ok (['x', 'n', '-', '-'] ++ Punycode.encode label)

/-- The ASCII form of the name that these bytes spell.

Covered are names of ASCII characters, of their full-width forms, and of single letters in lower
case, or in an upper case that `lowerLetter` knows. Of other names, also of those that a label in
Punycode stands for, the form is only near to the one of the web: ligatures and the like are not
replaced by the letters they stand for, a letter and the mark behind it are not made one character,
other letters in upper case stay, and characters without a use, marks, joiners and letters of
either direction may stand anywhere. -/
def domainToAscii (bytes : Bytes) : Except Problem (List Char) := do
  match Utf8.decode? bytes with
  | none => .error .internationalName
  | some s =>
    let cs := s.toList.flatMap mappedInDomain
    if cs.any isRefusedInDomain then .error .internationalName
    let labels ← (Text.splitChars '.' cs).mapM asciiLabel
    return ['.'].intercalate labels

/-- A host of a scheme whose hosts are of the internet. -/
def parseHost (cs : List Char) : Except Problem Host :=
  match bracketed? cs with
  | some host => host
  | none => do
    let domain ← domainToAscii (decode (Utf8.encodeChars cs))
    if domain.isEmpty then .error .emptyHost
    else if endsInNumber domain then (parseIpv4 domain).map .ipv4
    else .ok (.name (String.ofList domain))

end ServiceCall.Url
