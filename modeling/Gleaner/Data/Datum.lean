import Gleaner.Data.Calendar
import Gleaner.Number.Shortest
import Gleaner.Record

/-! # Data

Values as they come from outside, before it is known whether they have the wanted type, and the values
that loading makes of them. Records are data whose keys are texts.
-/

namespace Gleaner

/-- A value of unknown type. -/
inductive Datum where
  | null
  | bool (b : Bool)
  | int (i : Int)
  | float (x : Binary64)
  /-- The outcome of a computation on numbers that has no value. -/
  | notANumber
  | date (d : Date)
  | moment (m : Moment)
  | text (t : Text)
  | list (items : List Datum)
  | tuple (items : List Datum)
  | dict (entries : List (Datum × Datum))
  /-- A member of an enumeration, both by name. -/
  | member (enumeration name : Text)
  /-- An instance of a named type with fields. -/
  | object (type : Text) (fields : List (Text × Datum))

namespace Datum

/-- The number that a datum counts as where keys are compared. -/
def number? : Datum → Option (Int ⊕ Binary64)
  | bool b => some (.inl (if b then 1 else 0))
  | int i => some (.inl i)
  | float x =>
    match x.toInt? with
    | some i => some (.inl i)
    | none => some (.inr x)
  | _ => none

mutual

/-- Whether two data are the same key. Numbers count by value whatever their type is, and tuples item by
item. -/
def sameKey : Datum → Datum → Bool
  | null, null => true
  | notANumber, notANumber => true
  | text s, text t => s == t
  | date c, date d => c == d
  | moment m, moment n => m.sameAs n
  | member e s, member f t => e == f && s == t
  | tuple items, tuple others => sameKeys items others
  | a, b =>
    match a.number?, b.number? with
    | some m, some n => m == n
    | _, _ => false

def sameKeys : List Datum → List Datum → Bool
  | [], [] => true
  | item :: items, other :: others => sameKey item other && sameKeys items others
  | _, _ => false

end

mutual

/-- The type that keeps a datum from being a key: lists and dictionaries are none, nor is a tuple that
holds one, nor an object. -/
def keyless? : Datum → Option Text
  | list _ => some "list".toList
  | dict _ => some "dict".toList
  | object type _ => some type
  | tuple items => firstKeyless? items
  | _ => none

def firstKeyless? : List Datum → Option Text
  | [] => none
  | item :: more => (keyless? item).or (firstKeyless? more)

end

/-- Adds an entry. A key that is there already keeps its place. -/
def insertEntry (key value : Datum) : List (Datum × Datum) → List (Datum × Datum)
  | [] => [(key, value)]
  | (other, held) :: more =>
    if other.sameKey key then (other, value) :: more
    else (other, held) :: insertEntry key value more

/-- The dictionary made by adding entries in order. -/
def ofEntries (entries : List (Datum × Datum)) : Datum :=
  dict (entries.foldl (fun made entry => insertEntry entry.1 entry.2 made) [])

/-- Whether a datum counts as nothing. -/
def isEmpty : Datum → Bool
  | null => true
  | bool b => !b
  | int i => i == 0
  | float x => x.isZero
  | text t => List.isEmpty t
  | list items => items.isEmpty
  | tuple items => items.isEmpty
  | dict entries => entries.isEmpty
  | _ => false

def equalsInt (d : Datum) (i : Int) : Bool := d.number? == some (.inl i)

def typeName : Datum → Text
  | null => "NoneType".toList
  | bool _ => "bool".toList
  | int _ => "int".toList
  | float _ => "float".toList
  | notANumber => "float".toList
  | date _ => "date".toList
  | moment _ => "datetime".toList
  | text _ => "str".toList
  | list _ => "list".toList
  | tuple _ => "tuple".toList
  | dict _ => "dict".toList
  | member enumeration _ => enumeration
  | object type _ => type

/-- A zone as it is shown within a datum. -/
def shownZone (z : Zone) : Text :=
  Text.applied "datetime.timezone" [Zone.shownDistance z.minutes, Text.quote z.name]

/-- A moment as it is shown within a datum. Microseconds are left out if there are none, and then the
second if it is zero. -/
def shownMoment (m : Moment) : Text :=
  let tail := if m.microsecond = 0 then (if m.second = 0 then [] else [m.second]) else
    [m.second, m.microsecond]
  Text.applied "datetime.datetime"
    (([m.date.year, m.date.month, m.date.day, m.hour, m.minute] ++ tail).map Text.ofNat ++
      (m.zone.map fun z => "tzinfo=".toList ++ shownZone z).toList)

mutual

/-- A datum as it is shown within another one. -/
def shownInside : Datum → Text
  | null => "None".toList
  | bool b => if b then "True".toList else "False".toList
  | int i => Text.ofInt i
  | float x => x.shown
  | notANumber => "nan".toList
  | date d => Text.applied "datetime.date" ([d.year, d.month, d.day].map Text.ofNat)
  | moment m => shownMoment m
  | text t => Text.quote t
  | list items => '[' :: [',', ' '].intercalate (shownItems items) ++ [']']
  | tuple [item] => '(' :: item.shownInside ++ [',', ')']
  | tuple items => '(' :: [',', ' '].intercalate (shownItems items) ++ [')']
  | dict entries => '{' :: [',', ' '].intercalate (shownEntries entries) ++ ['}']
  | member enumeration name => enumeration ++ '.' :: name
  | object type _ => type

def shownItems : List Datum → List Text
  | [] => []
  | item :: more => item.shownInside :: shownItems more

def shownEntries : List (Datum × Datum) → List Text
  | [] => []
  | (key, value) :: more =>
    (key.shownInside ++ ':' :: ' ' :: value.shownInside) :: shownEntries more

end

/-- The most digits with which an integer is read or shown. -/
def mostDigits : Nat := 4300

/-- Whether an integer has more digits than are shown. -/
def isLong (i : Int) : Bool := mostDigits < (Text.ofNat i.natAbs).length

mutual

/-- Whether a datum holds an integer with more digits than are shown, and so cannot be shown itself. -/
def holdsLong : Datum → Bool
  | int i => isLong i
  | list items => itemsHoldLong items
  | tuple items => itemsHoldLong items
  | dict entries => entriesHoldLong entries
  | _ => false

def itemsHoldLong : List Datum → Bool
  | [] => false
  | item :: more => item.holdsLong || itemsHoldLong more

def entriesHoldLong : List (Datum × Datum) → Bool
  | [] => false
  | (key, value) :: more => key.holdsLong || value.holdsLong || entriesHoldLong more

end

/-- What stands for a datum that cannot be shown. -/
def unshown (d : Datum) : Text := "<unprintable ".toList ++ d.typeName ++ " object>".toList

/-- A datum as it is shown on its own: a text stands without quotes, and dates and moments in their
common form. -/
def shown : Datum → Text
  | text t => t
  | date d => d.shown
  | moment m => m.shown
  | d => d.shownInside

end Datum

mutual

/-- The value of a field as a datum. -/
def Value.toDatum : Value → Datum
  | .null => .null
  | .text t => .text t
  | .number x => .float x
  | .records rs => .list (recordsToData rs)

def recordsToData : List (List (Text × Value)) → List Datum
  | [] => []
  | r :: more => .dict (fieldsToData r) :: recordsToData more

def fieldsToData : List (Text × Value) → List (Datum × Datum)
  | [] => []
  | (name, value) :: more => (.text name, value.toDatum) :: fieldsToData more

end

/-- A record as a datum. -/
def Record.toDatum (r : Record) : Datum := .dict (fieldsToData r)

end Gleaner
