import Gleaner.Text.Basic
import Std.Data.ExtHashSet

/-! # Claims

What a search has bound so far, as a set and in the order in which it was claimed. A search that tries
something remembers the length of the journal; what was claimed since can be undone and later, if the
attempt is chosen after all, claimed again.
-/

namespace Gleaner

universe u

/-- Everything that is claimed, and the journal of the claims. -/
structure ClaimSet (α : Type u) [BEq α] [Hashable α] where
  claimed : Std.ExtHashSet α
  /-- The claims that were not undone, the first one first. -/
  journal : List α

namespace ClaimSet

variable {α : Type u} [BEq α] [LawfulBEq α] [Hashable α]

def empty : ClaimSet α := ⟨∅, []⟩

def contains (claims : ClaimSet α) (a : α) : Bool := claims.claimed.contains a

def size (claims : ClaimSet α) : Nat := claims.claimed.size

/-- Makes a claim; what is claimed already stays where it is. -/
def claim (claims : ClaimSet α) (a : α) : ClaimSet α :=
  if claims.contains a then claims else ⟨claims.claimed.insert a, claims.journal ++ [a]⟩

/-- The place in the journal where the next claim will stand. -/
def checkpoint (claims : ClaimSet α) : Nat := claims.journal.length

/-- Undoes the claims from a place of the journal on, and gives them in claim order. A negative number
counts from the end. -/
def rollback (claims : ClaimSet α) (checkpoint : Int) : List α × ClaimSet α :=
  let place := Text.placeOf claims.journal.length checkpoint
  let undone := claims.journal.drop place
  (undone, ⟨claims.claimed \ .ofList undone, claims.journal.take place⟩)

/-- Makes all of the given claims in order. -/
def replay (claims : ClaimSet α) (batch : List α) : ClaimSet α := batch.foldl claim claims

end ClaimSet
end Gleaner
