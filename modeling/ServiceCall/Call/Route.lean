/-!
# Route templates

A template is text with placeholders, two braces each. A route is the template with a parameter
in the place of every placeholder. Parameters are put in as they are: what looks like a
placeholder in a parameter is none.
-/

namespace ServiceCall.Route

/-- The pieces around the placeholders, which are found from the left and do not overlap. -/
def pieces : List Char → List (List Char)
  | [] => [[]]
  | '\x7b' :: '\x7d' :: rest => [] :: pieces rest
  | c :: rest =>
    match pieces rest with
    | [] => [[c]]
    | piece :: more => (c :: piece) :: more

theorem pieces_ne_nil (cs : List Char) : pieces cs ≠ [] := by
  fun_cases pieces cs <;> simp_all

def placeholders (template : List Char) : Nat := (pieces template).length - 1

/-- The pieces with a parameter between each two; parameters or pieces left over end it. -/
def fill : List (List Char) → List (List Char) → List Char
  | [], _ => []
  | piece :: [], _ => piece
  | piece :: _, [] => piece
  | piece :: more, param :: params => piece ++ param ++ fill more params

/-- The route, if there is exactly one parameter for each placeholder. -/
def expand? (template : String) (params : List String) : Option String :=
  if placeholders template.toList = params.length then
    some (String.ofList (fill (pieces template.toList) (params.map String.toList)))
  else none

end ServiceCall.Route
