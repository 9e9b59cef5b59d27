import Gleaner.Data.Datum

/-! # Schemas

The types that data can be loaded as. Each kind of object has a name and fields in order. A model has a
policy: it may be strict, so that nothing is converted within it, and closed, so that it has no keys
other than its fields. The policy also holds for the plain objects within a model, up to the next model.
-/

namespace Gleaner

/-- What a model demands of data. -/
structure Policy where
  /-- Nothing is converted. -/
  strict : Bool
  /-- There are no keys other than the fields. -/
  closed : Bool
deriving DecidableEq

/-- The policy that holds outside of all models. -/
def Policy.lenient : Policy := ⟨false, false⟩

/-- What sets one kind of object apart from another. -/
inductive ObjectKind where
  | plain
  | model (policy : Policy)
deriving DecidableEq

/-- A type that data can be loaded as. -/
inductive Schema where
  | text
  | int
  | float
  | bool
  | any
  | null
  | optional (item : Schema)
  | list (item : Schema)
  | dict (key value : Schema)
  /-- A tuple of fixed length. -/
  | tuple (items : List Schema)
  /-- A tuple of any length. -/
  | tupleOf (item : Schema)
  | literal (values : List Text)
  /-- An enumeration: the names of its members and the texts they stand for. -/
  | enumeration (name : Text) (members : List (Text × Text))
  /-- An object: its fields with their types and, where there is one, the value that a missing field
  takes. -/
  | object (kind : ObjectKind) (name : Text) (fields : List (Text × Schema × Option Datum))

/-- Whether a schema admits nothing but null. -/
def Schema.isNull : Schema → Bool
  | null => true
  | optional item => item.isNull
  | _ => false

/-- The name under which loading a type is reported. -/
def Schema.label : Schema → Text
  | text => "str".toList
  | int => "int".toList
  | float => "float".toList
  | bool => "bool".toList
  | any => "Any".toList
  | null => "NoneType".toList
  | optional item => if item.isNull then "NoneType".toList else "Optional".toList
  | list _ => "List".toList
  | dict _ _ => "Dict".toList
  | tuple _ => "Tuple".toList
  | tupleOf _ => "Tuple".toList
  | literal _ => "Literal".toList
  | enumeration name _ => name
  | object _ name _ => name

end Gleaner
