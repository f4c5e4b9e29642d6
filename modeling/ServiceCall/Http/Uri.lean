import ServiceCall.Text.Blank
import ServiceCall.Text.Utf8

/-!
# Request targets

The form of an address that a request carries: scheme, authority, path and query, without a
fragment. Reading one checks its characters but decodes nothing.
-/

namespace ServiceCall.Http

structure Uri where
  scheme : Option String
  authority : Option String
  path : String
  query : Option String
  deriving DecidableEq, Repr, Inhabited

namespace Uri

inductive Problem where
  | character
  | authority
  | shape
  | tooLong
  | empty
  | schemeTooLong
  deriving DecidableEq, Repr

def Problem.message : Problem → String
  | .character => "invalid uri character"
  | .authority => "invalid authority"
  | .shape => "invalid format"
  | .tooLong => "uri too long"
  | .empty => "empty string"
  | .schemeTooLong => "scheme too long"

/-! ## Scheme -/

def isSchemeChar (c : Char) : Bool := c.isAlphanum || "+-.~".toList.contains c

def maxSchemeLength : Nat := 64

/-- The scheme in front of `://`, and what follows it. -/
def splitScheme (cs : List Char) : Except Problem (Option String × List Char) :=
  let name := cs.takeWhile isSchemeChar
  match cs.drop name.length with
  | ':' :: '/' :: '/' :: rest =>
    let known := Text.lower (String.ofList name)
    if known = "http" || known = "https" then .ok (some known, rest)
    else if cs.length ≤ 3 then .ok (none, cs)
    else if name.length > maxSchemeLength then .error .schemeTooLong
    else .ok (some (String.ofList name), rest)
  | _ => .ok (none, cs)

/-! ## Authority -/

def isAuthorityChar (c : Char) : Bool := c.isAlphanum || "!$&'()*+,-.:;=@[]_~".toList.contains c

def endsAuthority (c : Char) : Bool := c = '/' || c = '?' || c = '#'

/-- What has been seen of an authority; a user part is forgotten at its `@`. -/
structure AuthorityScan where
  colons : Nat := 0
  opened : Bool := false
  closed : Bool := false
  percent : Bool := false

def maxColons : Nat := 8

def AuthorityScan.step (s : AuthorityScan) (c : Char) : Except Problem AuthorityScan :=
  if c = ':' then
    if s.colons ≥ maxColons then .error .authority else .ok { s with colons := s.colons + 1 }
  else if c = '[' then
    if s.percent || s.opened then .error .authority else .ok { s with opened := true }
  else if c = ']' then
    if !s.opened || s.closed then .error .authority
    else .ok { s with closed := true, colons := 0, percent := false }
  else if c = '@' then .ok { s with colons := 0, percent := false }
  else if c = '%' then .ok { s with percent := true }
  else if isAuthorityChar c then .ok s
  else .error .character

/-- The authority in front, and what follows it. -/
def splitAuthority (cs : List Char) : Except Problem (List Char × List Char) := do
  let (name, rest) := cs.span fun c => !endsAuthority c
  let scan ← name.foldlM AuthorityScan.step {}
  if scan.opened != scan.closed || scan.colons > 1 || scan.percent ||
      name.getLast? = some '@' then .error .authority
  else .ok (name, rest)

/-! ## Path and query -/

def isPathChar (c : Char) : Bool :=
  let n := c.toNat
  n = 0x21 || n = 0x22 || (0x24 ≤ n && n ≤ 0x3B) || n = 0x3D || (0x40 ≤ n && n ≤ 0x5F) ||
    (0x61 ≤ n && n ≤ 0x7E) || 0x7F ≤ n

def isQueryChar (c : Char) : Bool :=
  let n := c.toNat
  n = 0x21 || (0x24 ≤ n && n ≤ 0x3B) || n = 0x3D || (0x3F ≤ n && n ≤ 0x7E) || 0x7F ≤ n

/-- Path and query up to the fragment, which is dropped. -/
def splitPath (cs : List Char) : Except Problem (String × Option String) := do
  let (path, rest) := cs.span fun c => c ≠ '?' && c ≠ '#'
  if !path.all isPathChar then .error .character
  match rest with
  | '?' :: rest =>
    let query := rest.takeWhile (· ≠ '#')
    if !query.all isQueryChar then .error .character
    return (String.ofList path, some (String.ofList query))
  | _ => return (String.ofList path, none)

/-! ## The whole -/

def maxLength : Nat := 65534

def parse (s : String) : Except Problem Uri := do
  if s.utf8ByteSize > maxLength then .error .tooLong
  match s.toList with
  | [] => .error .empty
  | ['/'] => return ⟨none, none, "/", none⟩
  | ['*'] => return ⟨none, none, "*", none⟩
  | '/' :: cs =>
    let (path, query) ← splitPath ('/' :: cs)
    return ⟨none, none, path, query⟩
  | [c] =>
    let (name, rest) ← splitAuthority [c]
    if !rest.isEmpty then .error .character
    return ⟨none, some (String.ofList name), "", none⟩
  | cs =>
    let (scheme, cs) ← splitScheme cs
    let (name, rest) ← splitAuthority cs
    match scheme with
    | none =>
      if !rest.isEmpty then .error .shape
      return ⟨none, some (String.ofList name), "", none⟩
    | some scheme =>
      if name.isEmpty then .error .shape
      let (path, query) ← splitPath rest
      return ⟨some scheme, some (String.ofList name), path, query⟩

def hostAndPort (u : Uri) : List Char :=
  match u.authority with
  | none => []
  | some a => (Text.splitChars '@' a.toList).getLast?.getD []

/-- The host, with its brackets if it has some. -/
def host (u : Uri) : String :=
  match u.hostAndPort with
  | '[' :: cs => String.ofList ('[' :: cs.takeWhile (· ≠ ']') ++ [']'])
  | cs => String.ofList (cs.takeWhile (· ≠ ':'))

/-- The number behind the last colon of the authority, if it is a port. -/
def port? (u : Uri) : Option Nat :=
  match Text.splitChars ':' (u.authority.getD "").toList with
  | [] | [_] => none
  | pieces => Text.numberBelow? 65536 (pieces.getLast?.getD [])

def isSecure (u : Uri) : Bool := u.scheme.any (Text.sameIgnoringCase · "https")

/-- Host and port, with the port that the scheme implies if none is given. -/
def destination (u : Uri) : String :=
  u.host ++ ":" ++ toString (u.port?.getD (if u.isSecure then 443 else 80))

/-- The path with the query, as a request line shows it. -/
def originForm (u : Uri) : String :=
  (if u.path.isEmpty then "/" else u.path) ++
    match u.query with
    | some q => "?" ++ q
    | none => ""

def text (u : Uri) : String :=
  (match u.scheme with | some s => s ++ "://" | none => "") ++ u.authority.getD "" ++
    (if u.path.isEmpty && u.scheme.isNone then "" else u.originForm)

end Uri

end ServiceCall.Http
