import ServiceCall.Url.Domain

/-!
# Addresses

An absolute address in its canonical text. Reading one lowers scheme and domain, resolves the dot
segments of a path, drops the port a scheme implies and encodes what a component cannot hold.
-/

namespace ServiceCall

namespace Url

/-- Who is addressed: the user part, the host and a port that the scheme does not imply. -/
structure Authority where
  username : String
  password : String
  host : Host
  port : Option Nat
  deriving DecidableEq, Repr, Inhabited

end Url

structure Url where
  scheme : String
  authority : Option Url.Authority
  path : String
  query : Option String
  fragment : Option String
  deriving DecidableEq, Repr, Inhabited

namespace Url

/-! ## Schemes -/

inductive SchemeKind where
  | file
  | special
  | other
  deriving DecidableEq, Repr

def kindOf (scheme : String) : SchemeKind :=
  if scheme = "file" then .file
  else if ["http", "https", "ws", "wss", "ftp"].contains scheme then .special
  else .other

def defaultPort? (scheme : String) : Option Nat :=
  if scheme = "http" || scheme = "ws" then some 80
  else if scheme = "https" || scheme = "wss" then some 443
  else if scheme = "ftp" then some 21
  else none

def isSchemeChar (c : Char) : Bool := c.isAlphanum || c = '+' || c = '-' || c = '.'

/-- The scheme in front of the first colon, and what follows it. -/
def splitScheme? (cs : List Char) : Option (String × List Char) :=
  match cs with
  | [] => none
  | c :: _ =>
    if !c.isAlpha then none
    else
      let (name, rest) := cs.span isSchemeChar
      match rest with
      | ':' :: rest => some (Text.lower (String.ofList name), rest)
      | _ => none

/-- The text without the controls and spaces at its ends, and without tabs and line breaks. -/
def cleaned (s : String) : List Char :=
  let isEdge (c : Char) : Bool := c.toNat ≤ 0x20
  (Text.dropTrailing isEdge (s.toList.dropWhile isEdge)).filter fun c =>
    c ≠ '\t' && c ≠ '\n' && c ≠ '\r'

/-! ## Authority -/

def isSlash (kind : SchemeKind) (c : Char) : Bool := c = '/' || (c = '\\' && kind ≠ .other)

def endsAuthority (kind : SchemeKind) (c : Char) : Bool := isSlash kind c || c = '?' || c = '#'

/-- The user part in front of the last `@` of the authority, and what follows it. -/
def splitUser (kind : SchemeKind) (cs : List Char) :
    Except Problem (Option (List Char) × List Char) :=
  let authority := cs.takeWhile fun c => !endsAuthority kind c
  match Text.splitChars '@' authority with
  | [] | [_] => .ok (none, cs)
  | pieces =>
    let user := ['@'].intercalate pieces.dropLast
    let rest := cs.drop (user.length + 1)
    if user.isEmpty && rest.head?.any (endsAuthority kind) then .error .emptyHost
    else .ok (some user, rest)

/-- User name and password, encoded. -/
def readUser (user : List Char) : String × String :=
  let (name, rest) := user.span (· ≠ ':')
  (String.ofList (encode inUserSet name), String.ofList (encode inUserSet (rest.drop 1)))

/-- The length of the host in front: up to a colon outside brackets or the authority's end. -/
def hostLength (kind : SchemeKind) (inBrackets : Bool) : List Char → Nat
  | [] => 0
  | c :: rest =>
    if (c = ':' && !inBrackets) || endsAuthority kind c then 0
    else if c = '[' then hostLength kind true rest + 1
    else if c = ']' then hostLength kind false rest + 1
    else hostLength kind inBrackets rest + 1

/-- The port behind a colon, unless the scheme implies it, and what follows it. -/
def readPort (scheme : String) (cs : List Char) : Except Problem (Option Nat × List Char) :=
  let (digits, rest) := cs.span Char.isDigit
  match Text.digitsNumber? digits with
  | none =>
    if rest.head?.all endsPort then .ok (none, rest) else .error .port
  | some port =>
    if port > 65535 || !rest.head?.all endsPort then .error .port
    else .ok (if defaultPort? scheme = some port then none else some port, rest)
where
  endsPort (c : Char) : Bool := c = '/' || c = '\\' || c = '?' || c = '#'

def readAuthority (scheme : String) (cs : List Char) :
    Except Problem (Authority × List Char) := do
  let kind := kindOf scheme
  let (user?, cs) ← splitUser kind cs
  let (username, password) := match user? with
    | some user => readUser user
    | none => ("", "")
  let length := hostLength kind false cs
  let hostText := cs.take length
  let rest := cs.drop length
  if kind = .special && hostText.isEmpty then .error .emptyHost
  let host ← if kind = .special then parseHost hostText else parseOpaqueHost hostText
  if host = .empty && rest.head? = some ':' then .error .emptyHost
  let (port, rest) ← match rest with
    | ':' :: rest => readPort scheme rest
    | _ => .ok (none, rest)
  if host = .empty && !(username.isEmpty && password.isEmpty) then .error .emptyHost
  return (⟨username, password, host, port⟩, rest)

/-! ## Path -/

def isDot (segment : List Char) : Bool :=
  ["." , "%2e"].contains (Text.lower (String.ofList segment))

def isDoubleDot (segment : List Char) : Bool :=
  ["..", ".%2e", "%2e.", "%2e%2e"].contains (Text.lower (String.ofList segment))

/-- Resolves dot segments; `done` holds the segments so far, the last one first. -/
def resolveFrom (keep : List Char → Bool) (done : List (List Char)) :
    List (List Char) → List (List Char)
  | [] => done
  | [last] =>
    if isDoubleDot last then [] :: dropped done
    else if isDot last then [] :: done
    else last :: done
  | segment :: rest =>
    if isDoubleDot segment then resolveFrom keep (dropped done) rest
    else if isDot segment then resolveFrom keep done rest
    else resolveFrom keep (segment :: done) rest
where
  dropped : List (List Char) → List (List Char)
    | [] => []
    | segment :: rest => if keep segment then segment :: rest else rest

def resolve (keep : List Char → Bool) (segments : List (List Char)) : List (List Char) :=
  (resolveFrom keep [] segments).reverse

/-- The segments of a path whose first slash has been taken off. -/
def segmentsOf (kind : SchemeKind) (cs : List Char) : List (List Char) :=
  Text.splitChars '/' (cs.map fun c => if isSlash kind c then '/' else c)

def segmentsText (segments : List (List Char)) : String :=
  String.ofList ('/' :: ['/'].intercalate segments)

/-- The path that these characters give behind its first slash. -/
def readPath (kind : SchemeKind) (cs : List Char) : String :=
  segmentsText (resolve (fun _ => false) ((segmentsOf kind cs).map (encode inPathSet)))

/-- A letter with a colon or a bar. -/
def isDriveLetter (segment : List Char) : Bool :=
  match segment with
  | [c, mark] => c.isAlpha && (mark = ':' || mark = '|')
  | _ => false

def normalDriveLetter (segment : List Char) : List Char :=
  if isDriveLetter segment then segment.take 1 ++ [':'] else segment

/-- The path of a file: it begins with no empty segment, and a drive letter stays. -/
def readFilePath (cs : List Char) : String :=
  let segments := (segmentsOf .file cs).map (encode inPathSet)
  let segments := match segments with
    | first :: rest => normalDriveLetter first :: rest
    | [] => []
  let segments := resolve isDriveLetter segments
  let trimmed := segments.dropWhile List.isEmpty
  segmentsText (if trimmed.isEmpty then [[]] else trimmed)

def dropSlash (kind : SchemeKind) (cs : List Char) : List Char :=
  match cs with
  | c :: rest => if isSlash kind c then rest else cs
  | [] => []

/-! ## Query and fragment -/

/-- The part of an address behind the path: the query and the fragment. -/
def readTail (kind : SchemeKind) (cs : List Char) : Option String × Option String :=
  let (front, fragment) := cs.span (· ≠ '#')
  let set := if kind = .other then inQuerySet else inSpecialQuerySet
  let query := match front with
    | '?' :: query => some (String.ofList (encode set query))
    | _ => none
  let fragment := match fragment with
    | '#' :: text => some (String.ofList (encode inFragmentSet text))
    | _ => none
  (query, fragment)

def splitPath (cs : List Char) : List Char × List Char := cs.span fun c => c ≠ '?' && c ≠ '#'

/-! ## The whole -/

def withTail (kind : SchemeKind) (url : Url) (cs : List Char) : Url :=
  let (query, fragment) := readTail kind cs
  { url with query, fragment }

/-- Scheme, authority and path, what is left being query and fragment. -/
def afterSlashes (scheme : String) (cs : List Char) : Except Problem Url := do
  let kind := kindOf scheme
  let (authority, cs) ← readAuthority scheme cs
  let (path, tail) := splitPath cs
  let path :=
    if kind = .other && path.isEmpty then "" else readPath kind (dropSlash kind path)
  return withTail kind ⟨scheme, some authority, path, none, none⟩ tail

/-- The host of a file address and what follows it. A drive letter or this machine is no host. -/
def readFileHost (cs : List Char) : Except Problem (Host × List Char) := do
  let text := cs.takeWhile fun c => !endsAuthority .file c
  if isDriveLetter text then return (.empty, cs)
  let rest := cs.drop text.length
  if text.isEmpty then return (.empty, rest)
  let host ← parseHost text
  return (if host = .name "localhost" then .empty else host, rest)

def parseFile (cs : List Char) : Except Problem Url := do
  let (host, cs) ← match cs with
    | a :: b :: rest =>
      if isSlash .file a && isSlash .file b then readFileHost rest else .ok (.empty, cs)
    | _ => .ok (.empty, cs)
  let (path, tail) := splitPath cs
  return withTail .file
    ⟨"file", some ⟨"", "", host, none⟩, readFilePath (dropSlash .file path), none, none⟩ tail

/-- An address without an authority. -/
def parseBare (scheme : String) (cs : List Char) : Url :=
  let (path, tail) := splitPath cs
  let path := match path with
    | '/' :: rest => readPath .other rest
    | _ => String.ofList (encode isControl path)
  withTail .other ⟨scheme, none, path, none, none⟩ tail

def parse (s : String) : Except Problem Url :=
  match splitScheme? (cleaned s) with
  | none => .error .relative
  | some (scheme, cs) =>
    match kindOf scheme with
    | .file => parseFile cs
    | .special => afterSlashes scheme (cs.dropWhile (isSlash .special))
    | .other =>
      match cs with
      | '/' :: '/' :: rest => afterSlashes scheme rest
      | _ => .ok (parseBare scheme cs)

/-! ## Text -/

def Authority.text (a : Authority) : String :=
  let user := a.username ++ if a.password.isEmpty then "" else ":" ++ a.password
  (if user.isEmpty then "" else user ++ "@") ++ a.host.text ++
    match a.port with
    | some port => ":" ++ toString port
    | none => ""

/-- The canonical text; a path that begins with two slashes must not pass for an authority. -/
def text (u : Url) : String :=
  u.scheme ++ ":" ++
    (match u.authority with
    | some a => "//" ++ a.text
    | none => if u.path.startsWith "//" then "/." else "") ++
    u.path ++
    (match u.query with | some q => "?" ++ q | none => "") ++
    (match u.fragment with | some f => "#" ++ f | none => "")

/-- The address with pairs added to its query. -/
def withPairs (u : Url) (pairs : List (String × String)) : Url :=
  if pairs.isEmpty then u
  else { u with query := some (String.ofList (appendPairs (u.query.getD "").toList pairs)) }

def isWeb (u : Url) : Bool := u.scheme = "http" || u.scheme = "https"

end Url

end ServiceCall
