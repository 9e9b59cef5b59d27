import Gleaner.Number.Numeral
import Gleaner.Template.Basic
import Gleaner.Text.Blank

/-! # From text to values

Text is bound as the type of the binding says. Text that does not fit is an ordinary outcome, with a
reason; a type without a conversion is not, and ends whatever asked for it.
-/

namespace Gleaner

/-- Why text does not fit. -/
inductive Misfit where
  /-- A value is required and there is only white space, or nothing at all. -/
  | missing (name : Text)
  | notNumber (name text : Text)
  /-- The text does not match the pattern with the given written form. -/
  | pattern (written : Text)
deriving DecidableEq

def Misfit.message : Misfit → Text
  | missing name => '\'' :: name ++ "' is required but empty".toList
  | notNumber name text =>
    '\'' :: name ++ "' expects a number, got ".toList ++ Text.quote text
  | pattern written => "text does not match ".toList ++ Text.quote written

/-- What comes of binding text. -/
inductive Bound (α : Type) where
  | value (a : α)
  | misfit (reason : Misfit)
  | unknownKind (name : Text)

namespace Bound

variable {α β : Type}

/-- Goes on with a value, if there is one. -/
def bind (b : Bound α) (next : α → Bound β) : Bound β :=
  match b with
  | value a => next a
  | misfit reason => misfit reason
  | unknownKind name => unknownKind name

def map (f : α → β) (b : Bound α) : Bound β := b.bind fun a => value (f a)

end Bound

/-- The value that a binding takes from text, or from nothing where there is no text. White space at
the ends does not count, and a number has to be all of the rest. -/
def Binding.coerce (binding : Binding) (raw : Option Text) : Bound Value :=
  let trimmed := Text.trim (raw.getD [])
  if trimmed.isEmpty then
    if binding.nullable then .value .null else .misfit (.missing binding.name)
  else
    match binding.kind with
    | .string => .value (.text trimmed)
    | .number =>
      match Numeral.read? trimmed with
      | some decimal => .value (.number decimal.toBinary64)
      | none => .misfit (.notNumber binding.name trimmed)
    | .other name => .unknownKind name

end Gleaner
