import Gleaner.Markup.Builder
import Gleaner.Proofs.Characters

/-! # Written markup

What an element holds, in order, and the ordinary way to write it down: values in double quotes, and a
closing tag for every element that may have one. Below are the conditions under which a reader can tell
apart what was written.
-/

namespace Gleaner.Markup

open Text

structure StartTag where
  name : Text
  /-- The attributes by name and value. -/
  pairs : List (Text × Text)
deriving DecidableEq

/-- What stands in an element, one item after the other. An element of its own begins with `head`. -/
inductive Passage (η : Type) where
  | nil
  | text (run : Text) (after : Passage η)
  | comment (body : Text) (after : Passage η)
  | element (head : η) (below after : Passage η)
deriving DecidableEq

namespace StartTag

/-- The name of the element that the tag begins. -/
def tag (start : StartTag) : Text := lower start.name

/-- The attributes as they are read. -/
def readPairs (start : StartTag) : List (Text × Text) :=
  start.pairs.map fun pair => (lower pair.1, pair.2)

def element (start : StartTag) : Element := .ofAttributes start.tag start.readPairs

def writePair (pair : Text × Text) : Text := ' ' :: (pair.1 ++ '=' :: '"' :: (pair.2 ++ ['"']))

def write (start : StartTag) : Text :=
  '<' :: (start.name ++ (start.pairs.flatMap writePair ++ ['>']))

def writeClosing (start : StartTag) : Text := '<' :: '/' :: (start.name ++ ['>'])

/-- Names of ASCII for the tag, proper names for the attributes, and no value with a double quote. -/
structure Legible (start : StartTag) : Prop where
  name : ∃ c more, start.name = c :: more ∧ c.isAlpha = true ∧ ∀ d ∈ more, isNameChar d = true
  names : ∀ pair ∈ start.pairs, pair.1 ≠ [] ∧ ∀ c ∈ pair.1, isAttributeChar c = true
  values : ∀ pair ∈ start.pairs, '"' ∉ pair.2

end StartTag

def writeComment (body : Text) : Text := "<!--".toList ++ (body ++ "-->".toList)

/-- A text in which no markup begins: behind every bracket stands a space or a digit. -/
def Inert (t : Text) : Prop :=
  ∀ i < t.length, t[i]? = some '<' → t[i + 1]?.any (fun c => c == ' ' || c.isDigit) = true

instance (t : Text) : Decidable (Inert t) :=
  inferInstanceAs (Decidable (∀ i < t.length, t[i]? = some '<' → Option.any _ t[i + 1]? = true))

/-- A closing tag as it ends raw text: any case of the letters counts, and white space behind the name. -/
def IsRawEnd (tag t : Text) : Prop :=
  ∃ name blanks, t = '<' :: '/' :: (name ++ (blanks ++ ['>'])) ∧
    name.map caseKey = tag.map caseKey ∧ ∀ c ∈ blanks, isBlank c = true

namespace Passage

variable {η θ : Type}

def map (change : η → θ) : Passage η → Passage θ
  | nil => nil
  | text run after => text run (after.map change)
  | comment body after => comment body (after.map change)
  | element head below after => element (change head) (below.map change) (after.map change)

def write : Passage StartTag → Text
  | nil => []
  | text run after => run ++ after.write
  | comment body after => writeComment body ++ after.write
  | element start below after =>
    start.write ++ ((if start.tag ∈ voidTags then [] else below.write ++ start.writeClosing) ++
      after.write)

/-- The runs of text that stand right in the passage, trimmed, without the blank ones. -/
def runs : Passage η → List Text
  | nil => []
  | text run after => (if (trim run).isEmpty then [] else [trim run]) ++ after.runs
  | comment _ after => after.runs
  | element _ _ after => after.runs

/-- The elements of the passage, each with the text that stands right in it. -/
def elements (element : η → Element) : Passage η → Forest Element
  | nil => .nil
  | text _ after => after.elements element
  | comment _ after => after.elements element
  | .element head below after =>
    .cons { element head with text := [' '].intercalate below.runs } (below.elements element)
      (after.elements element)

def beginsWithText : Passage η → Bool
  | text _ _ => true
  | _ => false

/-- A passage that can be told apart when it is written, where `tag` names the element that a head
begins, and heads and texts meet their conditions. An element without closing tag holds nothing, one of
raw text holds one text without the end of it. -/
def WellFormed (tag : η → Text) (head : η → Prop) (run : Text → Prop) : Passage η → Prop
  | nil => True
  | text t after => run t ∧ after.beginsWithText = false ∧ after.WellFormed tag head run
  | comment body after => ¬ "-->".toList <:+: body ∧ after.WellFormed tag head run
  | element h below after =>
    head h ∧ after.WellFormed tag head run ∧
      if tag h ∈ voidTags then below = nil
      else if tag h ∈ rawTextTags then
        ∃ content, below = text content nil ∧ ∀ t, IsRawEnd (tag h) t → ¬ t <:+: content
      else below.WellFormed tag head run

end Passage
end Gleaner.Markup
