import Gleaner.Number.Numeral
import Gleaner.Text.Blank
import Gleaner.Typed.Flaw

/-! # Loading scalars

What counts as a text, an integer, a number or a truth value. A strict reading converts nothing but
integers to numbers; otherwise numerals and some words in texts count too, and numbers count as each
other where nothing is lost.
-/

namespace Gleaner.Scalar

/-- Whether a numeral may have the character around it: white space, information separators excepted. -/
def isMargin (c : Char) : Bool := Text.isBlank c && !(0x1c ≤ c.toNat && c.toNat ≤ 0x1f)

def trimMargin (s : Text) : Text :=
  ((s.dropWhile isMargin).reverse.dropWhile isMargin).reverse

/-- The text without its underscores; nothing if one of them is not alone between other characters. -/
def dropUnderscores? (s : Text) : Option Text :=
  let parts := s.splitOn '_'
  if parts.any List.isEmpty then none else some parts.flatten

/-- The most characters that an integer may have. -/
def longestInt : Nat := 4300

/-- A minus sign, if there is one, and what follows it. -/
def takeMinus : Text → Bool × Text
  | '-' :: s => (true, s)
  | s => (false, s)

/-- The length of the integer at the beginning of a text, its sign included; nothing if a zero comes
first. -/
def intLength (s : Text) : Nat :=
  let (negative, unsigned) := takeMinus s
  if unsigned.head? = some '0' then 0
  else (unsigned.takeWhile Char.isDigit).length + (if negative then 1 else 0)

/-- The integer that a text is in its normal form: a minus sign or none, and digits that begin with a
zero only if there are no others. -/
def readNormalInt? (s : Text) : Option Int :=
  let (negative, digits) := takeMinus s
  if digits.isEmpty ∨ !digits.all Char.isDigit ∨ (digits.head? = some '0' ∧ digits ≠ ['0']) then none
  else some (if negative then -(Numeral.digitsValue digits : Int) else Numeral.digitsValue digits)

/-- What follows zeros and underscores, the last of which is `last`. That one is kept in front of a point
and at the end. -/
def afterZeros? (last : Char) : Text → Option Text
  | [] => some [last]
  | c :: s =>
    if c = '0' ∨ c = '_' then afterZeros? c s
    else if c = '-' ∨ c.isDigit then some (c :: s)
    else if c = '.' then some (last :: c :: s)
    else none

/-- A numeral without zeros at its beginning. A minus sign may come before them or after them, but not
in both places. -/
def dropZeros? : Text → Option Text
  | [] => none
  | c :: s =>
    if c = '0' then afterZeros? c s
    else if c = '-' ∨ c.isDigit then some (c :: s)
    else none

/-- A numeral without a fraction that has no digits other than zeros. -/
def dropFraction (s : Text) : Text :=
  if (s.dropWhile (· != '.')).tail.all (· == '0') then s.takeWhile (· != '.') else s

/-- The normal form of an integer that is written with margins, a plus sign, zeros at its beginning, a
fraction of zeros, or underscores. -/
def normalizeInt? (s : Text) : Option Text :=
  let unsigned? : Text → Option Text
    | '+' :: '-' :: _ => none
    | '+' :: s => some s
    | s => some s
  ((unsigned? (trimMargin s)).bind dropZeros?).map fun digits =>
    let whole := dropFraction digits
    (dropUnderscores? whole).getD whole

/-- The integer that a text spells. Only one in normal form is refused for its length alone. -/
def readInt (s : Text) : Except FlawKind Int :=
  if longestInt < intLength s then .error .intSize
  else
    match readNormalInt? s with
    | some i => .ok i
    | none =>
      match (normalizeInt? s).filter (intLength · ≤ longestInt) with
      | none => .error .intText
      | some s =>
        match readNormalInt? s with
        | some i => .ok i
        | none => .error .intText

def infinityWords : List Text := ["inf".toList, "infinity".toList]

/-- The number that a text without underscores spells. -/
def readPlainFloat? (s : Text) : Option Binary64 :=
  let word := (Numeral.takeSign s).2.map Char.toLower
  if word ∈ infinityWords then some ⟨(Numeral.takeSign s).1, Binary64.infinitePattern⟩
  else if s.all fun c => c.toNat < 0x80 then (Numeral.read? s).map Decimal.toBinary64
  else none

/-- The number that a text spells. It may have either margins or underscores, which stand one at a time
inside. -/
def readFloat? (s : Text) : Option Binary64 :=
  (readPlainFloat? (trimMargin s)).or ((dropUnderscores? s).bind readPlainFloat?)

def trueWords : List Text := ["1", "t", "y", "on", "yes", "true"].map String.toList

def falseWords : List Text := ["0", "f", "n", "no", "off", "false"].map String.toList

/-- The truth value that a text spells, in small or capital letters. -/
def readBool? (s : Text) : Option Bool :=
  let word := s.map Char.toLower
  if word ∈ trueWords then some true else if word ∈ falseWords then some false else none

/-- The integer that a floating-point number is. -/
def intOfFloat (x : Binary64) : Except FlawKind Int :=
  if !x.isFinite then .error .intInfinite
  else
    match x.toInt? with
    | none => .error .intFraction
    | some i => if -wordLimit < i ∧ i < wordLimit then .ok i else .error .intSize

def boolOfInt (i : Int) : Except FlawKind Bool :=
  if i = 0 then .ok false else if i = 1 then .ok true else .error .boolValue

def loadText : Datum → Except FlawKind Text
  | .text t => .ok t
  | _ => .error .textType

def loadInt (strict : Bool) : Datum → Except FlawKind Int
  | .int i => .ok i
  | .bool b => if strict then .error .intType else .ok (if b then 1 else 0)
  | .float x => if strict then .error .intType else intOfFloat x
  | .text t =>
    if strict then .error .intType else readInt t
  | _ => .error .intType

def loadFloat (strict : Bool) : Datum → Except FlawKind Binary64
  | .float x => .ok x
  | .int i =>
    let x := Binary64.ofInt i
    if x.isFinite then .ok x else .error .floatType
  | .bool b => if strict then .error .floatType else .ok (.ofInt (if b then 1 else 0))
  | .text t =>
    if strict then .error .floatType
    else
      match readFloat? t with
      | some x => .ok x
      | none => .error .floatText
  | _ => .error .floatType

def loadBool (strict : Bool) : Datum → Except FlawKind Bool
  | .bool b => .ok b
  | .int i => if strict ∨ !isWord i then .error .boolType else boolOfInt i
  | .float x =>
    if strict then .error .boolType
    else
      match intOfFloat x with
      | .ok i => boolOfInt i
      | .error _ => .error .boolType
  | .text t =>
    if strict then .error .boolType
    else
      match readBool? t with
      | some b => .ok b
      | none => .error .boolValue
  | _ => .error .boolType

example : (readInt " +1_000.00 ".toList).toOption = some 1000 := by decide +kernel
example : (readInt "007".toList).toOption = some 7 := by decide +kernel
example : (readInt "0-1".toList).toOption = some (-1) := by decide +kernel
example : (readInt "-0-1".toList).toOption = none := by decide +kernel
example : (readInt "1__0".toList).toOption = none := by decide +kernel

end Gleaner.Scalar
