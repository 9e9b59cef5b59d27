import Gleaner.Selector.Reader

/-! # Faults in written templates

What can be wrong with a written template, and where in it. A fault found while reading is located by
the text from its place on; for the reader of a message that becomes an offset, a line and a column.
-/

namespace Gleaner.Template

/-- What is wrong with a written template. -/
inductive Cause where
  | noRoot
  | secondRoot
  | optionalRoot
  | directRoot
  | openTag
  | missingTagName
  | strayInTag (c : Char)
  | openAttributeBinding
  | openAttributeValue
  | repeatedAttribute (name : Text)
  | selector (cause : SelectorCause)
  | outsideBinding
  | openTextBinding
  | requiredInOptional (name : Text)
  | secondListing
  | openListing
  | listingWithoutColon
  | badName (name : Text)
  | badKind (name : Text)
deriving DecidableEq

def Cause.message : Cause → Text
  | noRoot => "Template has no root element".toList
  | secondRoot => "Template has more than one root element".toList
  | optionalRoot => "Root element cannot be optional".toList
  | directRoot => "Root element cannot be a direct child".toList
  | openTag => "Unterminated tag".toList
  | missingTagName => "Expected tag name".toList
  | strayInTag c => "Unexpected character ".toList ++ Text.quote [c] ++ " in tag".toList
  | openAttributeBinding => "Unterminated attribute binding".toList
  | openAttributeValue => "Unterminated attribute value".toList
  | repeatedAttribute name => "Duplicate attribute binding: ".toList ++ name
  | selector cause => cause.message
  | outsideBinding => "Binding outside of an element".toList
  | openTextBinding => "Unterminated text binding".toList
  | requiredInOptional name =>
    "Prop '".toList ++ name ++ "' inside an optional element must be nullable".toList
  | secondListing => "Duplicate array binding".toList
  | openListing => "Unterminated array binding".toList
  | listingWithoutColon => "Expected ':' in array binding".toList
  | badName name => "Invalid prop name: ".toList ++ Text.quote name
  | badKind name => "Invalid type: ".toList ++ name

/-- Why the reading of a template stops. -/
inductive Fault where
  /-- Something is wrong in the text from a place on. -/
  | here (cause : Cause) (rest : Text)
  /-- An attribute goes on behind the end of the part of the text that is read, with nothing that a value
  could begin with. Such an attribute has no place. -/
  | overrun
  /-- The text ends within a tag or a listing, and the part that is read was to go on. -/
  | cutShort
deriving DecidableEq

end Gleaner.Template

namespace Gleaner

/-- What is wrong with a written template, and where. -/
inductive TemplateError where
  | located (cause : Template.Cause) (position : Int) (line : Nat) (column : Int)
  | overrun
  | cutShort
deriving DecidableEq

namespace TemplateError

/-- The error at an offset of a text. Lines and columns count from one, and only a line feed ends a line.
A negative offset counts from the end, but the column is taken from the number as it is. -/
def ofPosition (source : Text) (cause : Template.Cause) (position : Int) : TemplateError :=
  let before := source.take (Text.placeOf source.length position)
  let lineStart := (before.reverse.dropWhile (· != '\n')).length
  .located cause position (before.count '\n' + 1) (position + 1 - lineStart)

def message? : TemplateError → Option Text
  | located cause _ line column =>
    some (cause.message ++ " at ".toList ++ Text.ofNat line ++ ':' :: Text.ofInt column)
  | overrun => none
  | cutShort => none

end TemplateError
end Gleaner
