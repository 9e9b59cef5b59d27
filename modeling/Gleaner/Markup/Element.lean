import Gleaner.Text.Blank

/-! # Elements

What a start tag and the text inside it say about one element. A start tag is read as a sequence of
named values with repetitions; the element keeps the words of all its classes, its first `id`
and the first value of every other name.
-/

namespace Gleaner

/-- One element on its own: neither its children nor its place are part of it. -/
structure Element where
  tag : Text
  id : Option Text
  classes : List Text
  /-- The attributes other than class and id, in order of first occurrence. -/
  attributes : List (Text × Text)
  /-- The text that stands directly in the element, its runs trimmed and joined by spaces. -/
  text : Text
deriving DecidableEq

namespace Element

def className : Text := "class".toList

def idName : Text := "id".toList

/-- The element that a start tag with the given named values begins, still without text. -/
def ofAttributes (tag : Text) (pairs : List (Text × Text)) : Element where
  tag := tag
  id := pairs.lookup idName
  classes := ((pairs.filter (·.1 == className)).flatMap (Text.words ·.2)).eraseDups
  attributes :=
    (pairs.filter fun pair => pair.1 != className && pair.1 != idName).eraseDupsBy
      fun pair earlier => pair.1 == earlier.1
  text := []

/-- The value of an attribute as written. The class attribute is given by its words, and an element
without any has none. -/
def rawAttribute (e : Element) (name : Text) : Option Text :=
  if name = className then
    if e.classes.isEmpty then none else some ([' '].intercalate e.classes)
  else if name = idName then e.id
  else e.attributes.lookup name

/-- The value of an attribute that is present and not empty. -/
def attribute? (e : Element) (name : Text) : Option Text := (e.rawAttribute name).filter (!·.isEmpty)

def hasAttribute (e : Element) (name : Text) : Bool := (e.rawAttribute name).isSome

end Element
end Gleaner
