/-!
# Sets of characters

A set of code points is kept as the sorted list of the places where membership changes: the
first boundary begins a range inside the set, the next one ends it, and so on.
-/

namespace ServiceCall.Text

structure CharSet where
  boundaries : Array Nat

namespace CharSet

/-- How many of the sorted boundaries in `lo ..< hi` are at most `n`, plus `lo`. -/
def search (bs : Array Nat) (n : Nat) (lo hi : Nat) : Nat :=
  if h : lo < hi then
    let mid := (lo + hi) / 2
    if bs.getD mid 0 ≤ n then search bs n (mid + 1) hi else search bs n lo mid
  else lo
termination_by hi - lo
decreasing_by all_goals omega

/-- A character is in the set if an odd number of boundaries lies at or below it. -/
def contains (s : CharSet) (c : Char) : Bool :=
  search s.boundaries c.toNat 0 s.boundaries.size % 2 = 1

end CharSet

end ServiceCall.Text
