import Gleaner.Text.Basic

/-! # Tokens

What a document is made of: marks, brackets, scalars, and the beginnings and ends of blocks, which are not
written but follow from the indentation.
-/

namespace Gleaner.Yaml

/-- A scalar as it is written: its content, and whether it stands without quotes. -/
structure Scalar where
  content : Text
  plain : Bool
deriving DecidableEq

/-- The two kinds of brackets: square ones hold a sequence and curly ones a mapping. -/
inductive Bracket where
  | square
  | curly
deriving DecidableEq

inductive Token where
  | documentStart
  | documentEnd
  | textEnd
  /-- A block that is a sequence begins. -/
  | sequenceStart
  /-- A block that is a mapping begins. -/
  | mappingStart
  | blockEnd
  /-- The dash in front of an item. -/
  | item
  /-- What comes next is a key. It is marked as one, or a colon follows it. -/
  | key
  /-- The colon in front of a value. -/
  | value
  | opening (bracket : Bracket)
  | closing (bracket : Bracket)
  | comma
  | scalar (scalar : Scalar)
deriving DecidableEq

end Gleaner.Yaml
