import Gleaner.Markup.Builder

/-! # Reading markup

Reading a text always gives a document. Beside it stand notes on what was passed over and, when a fault
left no tree, on where in the text it lies: the part of its line around it and the column in that part.
-/

namespace Gleaner.Markup

open Text

/-- A remark about the text that was read. -/
inductive Note where
  | strayClosing (tag : Text) (offset : Nat)
  /-- A fault, the length of the text, a part of the line that holds the fault, and the place of the
  fault's first character in that part. -/
  | fault (cause : Cause) (offset length : Nat) (excerpt : Text) (column : Nat)
deriving DecidableEq

/-- The lines of a log that a note becomes. A fault is shown by its excerpt and a mark below it. -/
def Note.messages : Note → List Text
  | strayClosing tag offset =>
    ["Ignoring stray closing tag </".toList ++ tag ++ "> at offset ".toList ++ ofNat offset]
  | fault cause offset length excerpt column =>
    [cause.message ++ " at offset ".toList ++ ofNat offset ++ " of ".toList ++ ofNat length,
      excerpt, List.replicate column ' ' ++ ['^']]

/-- The greatest length of an excerpt. -/
def excerptWidth : Nat := 80

/-- The line of the text that the offset lies in, and the offset within that line. -/
def lineAround (s : Text) (offset : Nat) : Text × Nat :=
  let before := ((s.take offset).reverse.takeWhile (· != '\n')).reverse
  (before ++ (s.drop offset).takeWhile (· != '\n'), before.length)

/-- The note on a fault at an offset. The excerpt starts half its width before the fault, or where the
line starts. -/
def noteFault (s : Text) (cause : Cause) (offset : Nat) : Note :=
  let (line, column) := lineAround s offset
  let start := column - excerptWidth / 2
  .fault cause offset s.length ((line.drop start).take excerptWidth) (column - start)

/-- A document and the notes taken while it was read. -/
structure Reading where
  document : Document
  notes : List Note

/-- Reads a markup text. Elements whose tag is in `skip`, ignoring case, are left out with everything
in them. -/
def read (skip : List Text) (s : Text) : Reading :=
  let result := scan (skip.map lower) s
  let builder := Builder.ofTokens result.tokens
  let strays := builder.strays.map fun stray =>
    Note.strayClosing stray.tag (s.length - stray.rest.length)
  match result.fault with
  | none => ⟨builder.finish.toDocument, strays⟩
  | some fault =>
    let offset := s.length - fault.rest.length
    ⟨.ofError (.fault fault.cause offset), strays ++ [noteFault s fault.cause offset]⟩

def parse (skip : List Text) (s : Text) : Document := (read skip s).document

end Gleaner.Markup
