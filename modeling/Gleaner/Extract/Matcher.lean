import Gleaner.Extract.Extraction
import Gleaner.Markup.Reading
import Gleaner.Settings.Basic
import Gleaner.Template.Compile
import Gleaner.Typed.Load

/-! # Matchers

A template bound to settings, to be applied to any number of markup texts; and extraction with the
record loaded as a type at the end.
-/

namespace Gleaner

/-- A template with what applies to its extractions. -/
structure Matcher where
  template : Template
  settings : Settings
  /-- The selector of the root, which takes precedence over that of the settings. -/
  rootSelector : Option Text

namespace Matcher

/-- The selector of the root that applies. An empty one counts and confines nothing. -/
def root (m : Matcher) : Option Text := m.rootSelector.or m.settings.rootSelector

def document (m : Matcher) (s : Text) : Document := Markup.parse m.settings.skipTags s

/-- The record of the deepest match in a markup text. -/
def first (m : Matcher) (s : Text) : Except ExtractError Record :=
  (Extraction.first m.template (m.document s) m.root m.settings.maxAttempts).result

/-- The records of all matches in a markup text. -/
def all (m : Matcher) (s : Text) : Except ExtractError (List Record) :=
  (Extraction.all m.template (m.document s) m.root m.settings.maxAttempts).result

end Matcher

/-- Why an extraction with a type fails. -/
inductive TypedExtractError where
  | template (error : TemplateError)
  | extract (error : ExtractError)
  | load (error : LoadError)
deriving DecidableEq

/-- The first record of a written template in a markup text, loaded as a type. -/
def extractTyped (template markup : Text) (schema : Schema) (rootSelector : Option Text) :
    Except TypedExtractError Datum :=
  match Template.compile template with
  | .error error => .error (.template error)
  | .ok t =>
    match (Extraction.first t (Markup.parse [] markup) rootSelector none).result with
    | .error error => .error (.extract error)
    | .ok record => (schema.load record.toDatum defaultPath none).result.mapError .load

end Gleaner
