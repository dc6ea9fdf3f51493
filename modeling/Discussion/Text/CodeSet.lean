/-!
# Sets of code points

Properties of characters are sets of code points, given by their bounds: the first bound is the least
member, the second the least code point above it that is no member, and so on in turn.
-/

namespace Discussion.Text

/-- A set of code points that starts and stops at the given bounds in turn. -/
structure CodeSet where
  /-- The bounds, in ascending order. -/
  bounds : List Nat

/-- Whether a code point is in the set: whether an odd number of bounds are at most the code point. -/
def CodeSet.contains (s : CodeSet) (code : Nat) : Bool :=
  s.bounds.foldl (fun inside bound => if bound ≤ code then !inside else inside) false

end Discussion.Text
