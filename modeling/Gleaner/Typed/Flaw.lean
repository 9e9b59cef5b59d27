import Gleaner.Data.Datum

/-! # Flaws

Where and why a datum does not have the type it is loaded as. Every kind of flaw has a message for the
user and a short code for the log.
-/

namespace Gleaner

/-- One step of the way from a datum into it. -/
inductive PathStep where
  | name (t : Text)
  | index (i : Int)
deriving DecidableEq

/-- The first positive integer that does not fit into 64 bits with a sign. -/
def wordLimit : Int := Binary64.signBit

/-- Whether an integer fits into 64 bits with a sign. -/
def isWord (i : Int) : Bool := -wordLimit ≤ i && i < wordLimit

/-- The step to what has a number. One that does not fit into 64 bits counts as a name. -/
def PathStep.ofInt (i : Int) : PathStep := if isWord i then .index i else .name (Text.ofInt i)

def PathStep.shown : PathStep → Text
  | name t => '.' :: t
  | index i => '[' :: Text.ofInt i ++ [']']

/-- What does not fit. -/
inductive FlawKind where
  | missing
  | unknownKey
  /-- A key that a plain object does not have, where a closed model is around it. -/
  | unknownArgument
  | keyType
  | textType
  | intType
  | intText
  | intFraction
  | intInfinite
  | intSize
  | floatType
  | floatText
  | boolType
  | boolValue
  | notNull
  | listType
  | dictType
  | tupleType
  | tooLong (allowed actual : Nat)
  | literal (values : List Text)
  | enumeration (values : List Text)
  | modelType (name : Text)
  | plainType (name : Text)
  /-- Only an instance will do, which data from outside never is. -/
  | instanceOf (name : Text)
  | exactInstanceOf (name : Text)
deriving DecidableEq

namespace FlawKind

/-- Texts in quotes, with commas between them and a word before the last. -/
def alternatives (values : List Text) : Text :=
  let quoted := values.map Text.quote
  match quoted.reverse with
  | [] => []
  | [only] => only
  | last :: before => [',', ' '].intercalate before.reverse ++ " or ".toList ++ last

def message : FlawKind → Text
  | missing => "required field missing".toList
  | unknownKey => "unknown key".toList
  | unknownArgument => "Unexpected keyword argument".toList
  | keyType => "Keys should be strings".toList
  | textType => "Input should be a valid string".toList
  | intType => "Input should be a valid integer".toList
  | intText => "Input should be a valid integer, unable to parse string as an integer".toList
  | intFraction => "Input should be a valid integer, got a number with a fractional part".toList
  | intInfinite => "Input should be a finite number".toList
  | intSize => "Unable to parse input string as an integer, exceeded maximum size".toList
  | floatType => "Input should be a valid number".toList
  | floatText => "Input should be a valid number, unable to parse string as a number".toList
  | boolType => "Input should be a valid boolean".toList
  | boolValue => "Input should be a valid boolean, unable to interpret input".toList
  | notNull => "Input should be None".toList
  | listType => "Input should be a valid list".toList
  | dictType => "Input should be a valid dictionary".toList
  | tupleType => "Input should be a valid tuple".toList
  | tooLong allowed actual =>
    "Tuple should have at most ".toList ++ Text.ofNat allowed ++
      (if allowed = 1 then " item" else " items").toList ++ " after validation, not ".toList ++
      Text.ofNat actual
  | literal values => "Input should be ".toList ++ alternatives values
  | enumeration values => "Input should be ".toList ++ alternatives values
  | modelType name => "Input should be a valid dictionary or instance of ".toList ++ name
  | plainType name => "Input should be a dictionary or an instance of ".toList ++ name
  | instanceOf name => "Input should be an instance of ".toList ++ name
  | exactInstanceOf name => "Input should be an instance of ".toList ++ name

def code : FlawKind → Text
  | missing => "missing".toList
  | unknownKey => "extra_forbidden".toList
  | unknownArgument => "unexpected_keyword_argument".toList
  | keyType => "invalid_key".toList
  | textType => "string_type".toList
  | intType => "int_type".toList
  | intText => "int_parsing".toList
  | intFraction => "int_from_float".toList
  | intInfinite => "finite_number".toList
  | intSize => "int_parsing_size".toList
  | floatType => "float_type".toList
  | floatText => "float_parsing".toList
  | boolType => "bool_type".toList
  | boolValue => "bool_parsing".toList
  | notNull => "none_required".toList
  | listType => "list_type".toList
  | dictType => "dict_type".toList
  | tupleType => "tuple_type".toList
  | tooLong _ _ => "too_long".toList
  | literal _ => "literal_error".toList
  | enumeration _ => "enum".toList
  | modelType _ => "model_type".toList
  | plainType _ => "dataclass_type".toList
  | instanceOf _ => "is_instance_of".toList
  | exactInstanceOf _ => "dataclass_exact_type".toList

end FlawKind

/-- A flaw and the way to it. -/
structure Flaw where
  path : List PathStep
  kind : FlawKind
deriving DecidableEq

/-- The same flaw as seen from one step further out. -/
def Flaw.within (step : PathStep) (flaw : Flaw) : Flaw := { flaw with path := step :: flaw.path }

end Gleaner
