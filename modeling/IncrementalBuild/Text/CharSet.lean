/-!
# Sets of characters

A property that a standard gives by ranges of code points is kept as the list
of the places where it changes: below the first bound it does not hold, from
there to the second it does, and so on. A character has the property exactly
when an odd number of bounds lie at or below it.
-/

namespace IncrementalBuild.Text

/-- A set of characters, given by the code points at which membership
changes. -/
structure CharSet where
  /-- The code points at which membership changes, in ascending order. -/
  bounds : List Nat

namespace CharSet

/-- **A character is a member when an odd number of bounds lie at or below
it.** -/
def contains (s : CharSet) (c : Char) : Bool :=
  (s.bounds.takeWhile (· ≤ c.toNat)).length % 2 == 1

end CharSet

end IncrementalBuild.Text
