import ServiceCall.Http.Token
import ServiceCall.Text.Utf8

/-!
# Header fields

Names are kept in lower case, values as bytes. A name may carry several values; their order is
kept, the order of different names has no meaning.
-/

namespace ServiceCall.Http

/-- A header name in lower case. -/
structure HeaderName where
  text : String
  deriving DecidableEq, Repr, Inhabited

namespace HeaderName

/-- The name that a text spells in any case. -/
def ofString? (s : String) : Option HeaderName :=
  if isToken s && s.length < 65536 then some ⟨Text.lower s⟩ else none

def accept : HeaderName := ⟨"accept"⟩
def authorization : HeaderName := ⟨"authorization"⟩
def connection : HeaderName := ⟨"connection"⟩
def contentLength : HeaderName := ⟨"content-length"⟩
def contentType : HeaderName := ⟨"content-type"⟩
def cookie : HeaderName := ⟨"cookie"⟩
def retryAfter : HeaderName := ⟨"retry-after"⟩
def traceparent : HeaderName := ⟨"traceparent"⟩
def transferEncoding : HeaderName := ⟨"transfer-encoding"⟩

end HeaderName

/-- A byte that a header value may hold: no control character but the tab. -/
def isValueByte (b : UInt8) : Bool := (0x20 ≤ b && b ≠ 0x7F) || b = 0x09

structure HeaderValue where
  bytes : Bytes
  /-- Kept out of debugging output. -/
  sensitive : Bool
  deriving DecidableEq, Repr, Inhabited

namespace HeaderValue

def ofBytes? (bytes : Bytes) : Option HeaderValue :=
  if bytes.all isValueByte then some ⟨bytes, false⟩ else none

def ofString? (s : String) : Option HeaderValue := ofBytes? (Bytes.ofString s)

/-- The value as text, if it is visible ASCII. -/
def text? (v : HeaderValue) : Option String := v.bytes.visibleText?

def ofVisible (s : String) : HeaderValue := ⟨Bytes.ofString s, false⟩

end HeaderValue

/-- Header fields, one entry for each value. -/
structure Headers where
  entries : List (HeaderName × HeaderValue)
  deriving DecidableEq, Repr, Inhabited

namespace Headers

def empty : Headers := ⟨[]⟩

def getAll (h : Headers) (name : HeaderName) : List HeaderValue :=
  h.entries.filterMap fun (n, v) => if n = name then some v else none

def get? (h : Headers) (name : HeaderName) : Option HeaderValue := (h.getAll name).head?

def contains (h : Headers) (name : HeaderName) : Bool := (h.get? name).isSome

def remove (h : Headers) (name : HeaderName) : Headers :=
  ⟨h.entries.filter fun (n, _) => n ≠ name⟩

def append (h : Headers) (name : HeaderName) (value : HeaderValue) : Headers :=
  ⟨h.entries ++ [(name, value)]⟩

/-- The only value of a name from now on. -/
def insert (h : Headers) (name : HeaderName) (value : HeaderValue) : Headers :=
  (h.remove name).append name value

/-- Every name of `top` has the values it has there, every other name those it has in `base`. -/
def overlay (base top : Headers) : Headers :=
  ⟨base.entries.filter (fun (n, _) => !top.contains n) ++ top.entries⟩

theorem getAll_append (h : Headers) (n m : HeaderName) (v : HeaderValue) :
    (h.append n v).getAll m = h.getAll m ++ if n = m then [v] else [] := by
  simp only [append, getAll, List.filterMap_append]
  by_cases e : n = m <;> simp [e]

theorem getAll_remove (h : Headers) (n m : HeaderName) :
    (h.remove n).getAll m = if n = m then [] else h.getAll m := by
  simp only [remove, getAll, List.filterMap_filter]
  by_cases e : n = m
  · subst e; simp
  · rw [if_neg e]
    congr 1
    funext ⟨k, v⟩
    by_cases hk : k = m
    · subst hk; simp [Ne.symm e]
    · by_cases hn : k = n <;> simp [hk]

theorem getAll_insert (h : Headers) (n m : HeaderName) (v : HeaderValue) :
    (h.insert n v).getAll m = if n = m then [v] else h.getAll m := by
  rw [insert, getAll_append, getAll_remove]
  by_cases e : n = m <;> simp [e]

/-- The fields in the order of their names, the values of a name in theirs. -/
def sorted (h : Headers) : List (HeaderName × HeaderValue) :=
  h.entries.mergeSort fun a b => a.1.text ≤ b.1.text

end Headers

/-- The members of a comma-separated list in lower case, without the blanks around them. -/
def listMembers (s : String) : List String :=
  (Text.split ',' s).map fun m => Text.lower (Text.trim m)

/-- Whether the sender is willing to keep the connection: no `Connection` line that can be read
as text has the member `close`. -/
def keepsAlive (h : Headers) : Bool :=
  !((h.getAll .connection).filterMap HeaderValue.text?).any fun line =>
    (listMembers line).contains "close"

end ServiceCall.Http
