import Gleaner.Text.Blank

/-! # Slices

A template may be a part of a longer text. What belongs to it ends with the part, but marks of two
characters are recognised by looking at the text as a whole, so that their second half may lie behind
the end.
-/

namespace Gleaner.Template

/-- The rest of a part of a text, and what follows the part. -/
structure Slice where
  inside : Text
  beyond : Text
  /-- Whether the part was to go on behind the end of the text. -/
  cutShort : Bool
deriving DecidableEq

namespace Slice

/-- The text from the beginning of the slice on, without regard to its end. -/
def rest (s : Slice) : Text := s.inside ++ s.beyond

/-- The next character, which may lie behind the end. -/
def peek (s : Slice) : Option Char := s.rest.head?

def whole (s : Text) : Slice := ⟨s, [], false⟩

/-- The characters from `start` up to `stop`; none if `stop` comes first. -/
def ofRange (source : Text) (start stop : Nat) : Slice :=
  ⟨(source.drop start).take (stop - start), source.drop (max start stop), source.length < stop⟩

end Slice
end Gleaner.Template
