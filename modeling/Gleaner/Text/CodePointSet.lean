import Gleaner.Text.Basic

/-! # Sets of code points

A set of code points is given by the increasing list of points where membership changes. Such a
list is a third of the length of a list of ranges and needs no invariant: any list denotes a set.
-/

namespace Gleaner

/-- The points where membership changes; below the first point nothing belongs. -/
structure CodePointSet where
  changes : List Nat

namespace CodePointSet

/-- A code point belongs when an odd number of changes has taken place up to it. -/
def contains (set : CodePointSet) (c : Char) : Bool :=
  (set.changes.takeWhile (· ≤ c.toNat)).length % 2 == 1

end CodePointSet
end Gleaner
