import Gleaner.Text.Quoted

/-! # Faults in markup

The ways in which markup can end too early. Everything else that looks wrong in a markup text is
read somehow; these faults alone leave no document.
-/

namespace Gleaner.Markup

/-- What was begun and not ended. -/
inductive Cause where
  | comment
  | declaration
  | tag
  | attributeValue
  | closingTag (name : Text)
  | rawText (name : Text)
  | skipped (name : Text)
deriving DecidableEq

def Cause.message : Cause → Text
  | comment => "Unterminated comment".toList
  | declaration => "Unterminated declaration".toList
  | tag => "Unterminated tag".toList
  | attributeValue => "Unterminated attribute value".toList
  | closingTag name => "Unterminated closing tag </".toList ++ name ++ ">".toList
  | rawText name => "Unterminated <".toList ++ name ++ "> element".toList
  | skipped name => "Unterminated skipped element <".toList ++ name ++ ">".toList

/-- A cause and the text from the place where the unended thing begins. -/
structure Fault where
  cause : Cause
  rest : Text
deriving DecidableEq

end Gleaner.Markup
