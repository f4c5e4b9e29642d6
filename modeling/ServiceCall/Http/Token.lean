import ServiceCall.Text.Blank

/-!
# Tokens and methods

The characters that method and header names are made of, and the method of a request.
-/

namespace ServiceCall.Http

/-- A letter, a digit or one of fifteen marks. -/
def isTokenChar (c : Char) : Bool :=
  c.isAlphanum || "!#$%&'*+-.^_`|~".toList.contains c

def isToken (s : String) : Bool := !s.isEmpty && s.toList.all isTokenChar

/-- A request method; its case counts. -/
structure Method where
  name : String
  isToken_name : isToken name = true
  deriving DecidableEq

namespace Method

instance : Repr Method := ⟨fun m _ => repr m.name⟩

def ofString? (s : String) : Option Method :=
  if h : isToken s = true then some ⟨s, h⟩ else none

def get : Method := ⟨"GET", by decide⟩
def head : Method := ⟨"HEAD", by decide⟩
def post : Method := ⟨"POST", by decide⟩
def put : Method := ⟨"PUT", by decide⟩
def patch : Method := ⟨"PATCH", by decide⟩
def delete : Method := ⟨"DELETE", by decide⟩

instance : Inhabited Method := ⟨get⟩

end Method

end ServiceCall.Http
