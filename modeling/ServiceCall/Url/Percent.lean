import ServiceCall.Text.Blank
import ServiceCall.Text.Utf8

/-!
# Percent and form encoding

Bytes that a component of an address cannot hold are written as `%XX`. Which characters those are
depends on the component. Query pairs use the form encoding, in which a space is a plus sign.
-/

namespace ServiceCall.Url

def percentByte (b : UInt8) : List Char :=
  ['%', Text.upperHexDigit (b.toNat / 16), Text.upperHexDigit (b.toNat % 16)]

/-- A character outside ASCII or in the set byte by byte, any other as it is. -/
def encodeChar (set : Char → Bool) (c : Char) : List Char :=
  if c.toNat < 0x80 && !set c then [c] else (Utf8.encodeChar c).flatMap percentByte

def encode (set : Char → Bool) (cs : List Char) : List Char := cs.flatMap (encodeChar set)

/-! ## What the components cannot hold -/

def isControl (c : Char) : Bool := c.toNat < 0x20 || c.toNat = 0x7F

def inFragmentSet (c : Char) : Bool := isControl c || " \"<>`".toList.contains c

def inPathSet (c : Char) : Bool := inFragmentSet c || "#?\x7b\x7d".toList.contains c

def inUserSet (c : Char) : Bool := inPathSet c || "/:;=@[\\]^|".toList.contains c

def inQuerySet (c : Char) : Bool := isControl c || " \"#<>".toList.contains c

def inSpecialQuerySet (c : Char) : Bool := inQuerySet c || c = '\''

/-! ## Decoding -/

def hexByte? (hi lo : UInt8) : Option UInt8 := do
  let hi ← Text.hexValue? (Char.ofNat hi.toNat)
  let lo ← Text.hexValue? (Char.ofNat lo.toNat)
  return UInt8.ofNat (hi * 16 + lo)

/-- Replaces each `%XX` by its byte; a percent sign without two digits stays. -/
def decode : Bytes → Bytes
  | b :: hi :: lo :: rest =>
    if b = 0x25 then
      match hexByte? hi lo with
      | some byte => byte :: decode rest
      | none => b :: decode (hi :: lo :: rest)
    else b :: decode (hi :: lo :: rest)
  | bytes => bytes

/-! ## Form encoding -/

def isFormByte (b : UInt8) : Bool :=
  let c := Char.ofNat b.toNat
  c.isAlphanum || "*-._".toList.contains c

def formByte (b : UInt8) : List Char :=
  if isFormByte b then [Char.ofNat b.toNat]
  else if b = 0x20 then ['+']
  else percentByte b

def formText (s : String) : List Char := (Utf8.encode s).flatMap formByte

def formPair (pair : String × String) : List Char :=
  formText pair.1 ++ '=' :: formText pair.2

/-- Adds pairs to a query, each behind an ampersand unless it comes first. -/
def appendPairs (query : List Char) (pairs : List (String × String)) : List Char :=
  pairs.foldl (fun q pair => (if q.isEmpty then [] else q ++ ['&']) ++ formPair pair) query

end ServiceCall.Url
