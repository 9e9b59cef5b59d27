import Gleaner.Markup.Document
import Gleaner.Markup.Token

/-! # From tokens to a tree

Tokens are placed one after the other. Elements stay open until their closing tag comes or the closing
tag of an element around them; a closing tag that closes nothing is passed over and noted. What is still
open at the end is closed there.
-/

namespace Gleaner.Markup

/-- What an element or the whole text holds so far. -/
structure Content where
  /-- The runs of text, trimmed, without the blank ones. -/
  texts : List Text
  elements : Forest Element
deriving DecidableEq

def Content.empty : Content := ⟨[], .nil⟩

/-- A closing tag that closes nothing, and the text from it on. -/
structure StrayClosing where
  tag : Text
  rest : Text
deriving DecidableEq

/-- The elements that are open, each with what it holds so far, the innermost first; and what stands
outside of all elements. -/
structure Builder where
  opened : List (Element × Content)
  top : Content
  strays : List StrayClosing

namespace Builder

def empty : Builder := ⟨[], .empty, []⟩

/-- Changes what the innermost open element holds. -/
def modifyContent (change : Content → Content) (b : Builder) : Builder :=
  match b.opened with
  | [] => { b with top := change b.top }
  | (element, content) :: outer => { b with opened := (element, change content) :: outer }

/-- Adds a run of text unless it is blank. -/
def addText (run : Text) (b : Builder) : Builder :=
  let trimmed := Text.trim run
  if trimmed.isEmpty then b
  else b.modifyContent fun content => { content with texts := content.texts ++ [trimmed] }

/-- Adds an element that holds `content` and nothing more. -/
def addElement (element : Element) (content : Content) (b : Builder) : Builder :=
  let done : Element := { element with text := [' '].intercalate content.texts }
  b.modifyContent fun outer =>
    { outer with elements := outer.elements ++ .cons done content.elements .nil }

/-- Closes the innermost open element. -/
def close (b : Builder) : Builder :=
  match b.opened with
  | [] => b
  | (element, content) :: outer => { b with opened := outer }.addElement element content

/-- Closes the `count` innermost open elements. -/
def closeMany : Nat → Builder → Builder
  | 0, b => b
  | count + 1, b => closeMany count b.close

/-- A closing tag closes the innermost open element of its name and all within. -/
def leave (tag rest : Text) (b : Builder) : Builder :=
  match b.opened.findIdx? (·.1.tag == tag) with
  | some inner => b.closeMany (inner + 1)
  | none => { b with strays := b.strays ++ [⟨tag, rest⟩] }

def place (b : Builder) : Token → Builder
  | .text run => b.addText run
  | .enter tag pairs => { b with opened := (.ofAttributes tag pairs, .empty) :: b.opened }
  | .leaf tag pairs content =>
    let trimmed := Text.trim content
    b.addElement (.ofAttributes tag pairs) ⟨if trimmed.isEmpty then [] else [trimmed], .nil⟩
  | .leave tag rest => b.leave tag rest

/-- All tokens placed in order. -/
def ofTokens (tokens : List Token) : Builder := tokens.foldl place empty

/-- What the whole text holds once every element is closed. -/
def finish (b : Builder) : Content := (b.closeMany b.opened.length).top

end Builder

/-- The tag of the element that is put around several top-level elements. -/
def fragmentTag : Text := "#fragment".toList

/-- The document of what a text holds. A single top-level element is its root, and text beside it is
dropped; several are put into one synthetic element together with that text. -/
def Content.toDocument (content : Content) : Document :=
  match content.elements with
  | .nil => .ofError .noElements
  | .cons top below .nil => .ofTree ⟨top, below⟩
  | elements =>
    .ofTree ⟨{ Element.ofAttributes fragmentTag [] with text := [' '].intercalate content.texts },
      elements⟩

end Gleaner.Markup
