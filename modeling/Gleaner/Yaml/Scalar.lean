import Gleaner.Yaml.Quoted
import Gleaner.Yaml.Timestamp
import Gleaner.Yaml.Token

/-! # Values of scalars

What a scalar without quotes stands for: nothing, a truth value, an integer, a number, a date or a moment,
or else its text. Underscores within numerals do not count, so that a scalar can have the form of a
numeral and yet no digits; it has no value then. A scalar in quotes is its text.
-/

namespace Gleaner.Yaml.Scalar

def nullWords : List Text := ["", "~", "null", "Null", "NULL"].map String.toList

def trueWords : List Text := ["true", "True", "TRUE"].map String.toList

def falseWords : List Text := ["false", "False", "FALSE"].map String.toList

def infinityWords : List Text := [".inf", ".Inf", ".INF"].map String.toList

def notANumberWords : List Text := [".nan", ".NaN", ".NAN"].map String.toList

/-- The key whose value is merged into the mapping. -/
def mergeKey : Text := ['<', '<']

/-- The mark that has a meaning of its own except as a key. -/
def defaultKey : Text := ['=']

/-- The scalar with no content, which stands where nothing is written. -/
def empty : Scalar := ⟨[], true⟩

def isMerge (s : Scalar) : Bool := s.plain && s.content == mergeKey

def isDefault (s : Scalar) : Bool := s.plain && s.content == defaultKey

def dropUnderscores (s : Text) : Text := s.filter (· != '_')

/-- Whether all characters are digits or underscores, and there is one. -/
def isRun (isDigit : Char → Bool) (s : Text) : Bool :=
  !s.isEmpty && s.all fun c => isDigit c || c == '_'

/-- The base of an integer without its sign, and its digits with underscores among them. A letter behind
a zero marks bases other than ten. -/
def integerDigits? (s : Text) : Option (Nat × Text) :=
  match s with
  | '0' :: 'b' :: digits => if isRun (fun c => c == '0' || c == '1') digits then some (2, digits) else none
  | '0' :: 'o' :: digits => if isRun (fun c => '0' ≤ c && c ≤ '7') digits then some (8, digits) else none
  | '0' :: 'x' :: digits => if isRun Quoted.isHexDigit digits then some (16, digits) else none
  | digits => if isRun Char.isDigit digits then some (10, digits) else none

def readDigits (base : Nat) (digits : Text) : Except Fault Nat :=
  if digits.isEmpty then .error (.noDigits base)
  else if base = 10 ∧ Datum.mostDigits < digits.length then .error (.manyDigits digits.length)
  else .ok (Quoted.valueIn base digits)

/-- Whether a text is the power of ten of a number: `e`, a sign and digits. The sign may be left out
unless it is required. -/
def isPower (signRequired : Bool) : Text → Bool
  | [] => true
  | c :: s =>
    let signed := s.head? == some '+' || s.head? == some '-'
    let digits := if signed then s.tail else s
    (c == 'e' || c == 'E') && (signed || !signRequired) && !digits.isEmpty && digits.all Char.isDigit

/-- Whether a text without sign has the form of a number with a point or a power of ten. -/
def isFloat (s : Text) : Bool :=
  let isPart (c : Char) : Bool := c.isDigit || c == '_'
  let whole := s.takeWhile isPart
  match s.dropWhile isPart with
  | '.' :: s =>
    if whole.isEmpty then !(s.takeWhile isPart).isEmpty && isPower true (s.dropWhile isPart)
    else whole.head? != some '_' && isPower false (s.dropWhile isPart)
  | [] => false
  | power => !whole.isEmpty && whole.head? != some '_' && isPower false power

/-- The number that a text without sign spells. -/
def readFloat (negative : Bool) (s : Text) : Except Fault Binary64 :=
  let written := dropUnderscores s
  match Numeral.read? written with
  | some decimal => .ok { decimal.toBinary64 with negative := negative }
  | none => .error (.float (written.map Char.toLower))

/-- A minus sign or a plus sign, if there is one, and what follows it. -/
def takeSign : Text → Option Char × Text
  | [] => (none, [])
  | c :: s => if c = '-' ∨ c = '+' then (some c, s) else (none, c :: s)

/-- The value of a number; nothing if a text is none. An underscore begins a number only behind a sign. -/
def readNumber? (s : Text) : Option (Except Fault Datum) :=
  let (sign, unsigned) := takeSign s
  let negative := sign == some '-'
  if s.head? = some '_' then none
  else if infinityWords.contains unsigned then some (.ok (.float ⟨negative, Binary64.infinitePattern⟩))
  else if notANumberWords.contains s then some (.ok .notANumber)
  else if isFloat unsigned then some ((readFloat negative unsigned).map .float)
  else
    (integerDigits? unsigned).map fun (base, digits) =>
      (readDigits base (dropUnderscores digits)).map fun n => .int (if negative then -(n : Int) else n)

/-- What a scalar without quotes stands for. The marks that mean something as keys mean nothing here. -/
def readPlain (s : Text) : Except Fault Datum :=
  if nullWords.contains s then .ok .null
  else if trueWords.contains s then .ok (.bool true)
  else if falseWords.contains s then .ok (.bool false)
  else if s = mergeKey ∨ s = defaultKey then .error .malformed
  else ((readNumber? s).or (Timestamp.read? s)).getD (.ok (.text s))

/-- What a scalar stands for. -/
def value (s : Scalar) : Except Fault Datum := if s.plain then readPlain s.content else .ok (.text s.content)

end Gleaner.Yaml.Scalar
