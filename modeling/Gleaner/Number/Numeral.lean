import Gleaner.Number.Binary64
import Gleaner.Text.Digit

/-! # Numerals

A numeral is an optional sign, digits with at most one point among or around them, and an optional
power of ten. The digits may be those of any script and count by their values. What a numeral denotes
is a decimal; turning it into a floating-point number is a separate step.
-/

namespace Gleaner

/-- The decimal `± coefficient · 10 ^ exponent`. -/
structure Decimal where
  negative : Bool
  coefficient : Nat
  exponent : Int
deriving DecidableEq, Repr

/-- The floating-point number nearest to a decimal. -/
def Decimal.toBinary64 (d : Decimal) : Binary64 :=
  .ofDecimal d.negative d.coefficient d.exponent

namespace Numeral

/-- The value of a sequence of digits, the first counting most. -/
def digitsValue (s : Text) : Nat :=
  s.foldl (fun value c => 10 * value + (Text.digitValue? c).getD 0) 0

/-- An optional sign and what follows it. -/
def takeSign : Text → Bool × Text
  | '-' :: s => (true, s)
  | '+' :: s => (false, s)
  | s => (false, s)

/-- The power of ten at the end of a numeral: nothing, or `e`, an optional sign and digits. -/
def readExponent? : Text → Option Int
  | [] => some 0
  | c :: s =>
    let digits := (takeSign s).2
    if (c = 'e' ∨ c = 'E') ∧ digits ≠ [] ∧ digits.all Text.isDigit then
      some (if (takeSign s).1 then -(digitsValue digits : Int) else digitsValue digits)
    else none

/-- The point and the digits behind it, if a point comes next, and what follows. -/
def takeFraction : Text → Text × Text
  | '.' :: s => (s.takeWhile Text.isDigit, s.dropWhile Text.isDigit)
  | s => ([], s)

/-- The decimal that a numeral denotes; nothing if the text is no numeral. -/
def read? (s : Text) : Option Decimal :=
  let unsigned := (takeSign s).2
  let whole := unsigned.takeWhile Text.isDigit
  let behind := takeFraction (unsigned.dropWhile Text.isDigit)
  if whole = [] ∧ behind.1 = [] then none
  else
    (readExponent? behind.2).map fun exponent =>
      ⟨(takeSign s).1, digitsValue (whole ++ behind.1), exponent - behind.1.length⟩

example : read? "-1.50e+2".toList = some ⟨true, 150, 0⟩ := by decide +kernel
example : read? ".5".toList = some ⟨false, 5, -1⟩ ∧ read? "5.".toList = some ⟨false, 5, 0⟩ := by
  decide +kernel
example : read? ".".toList = none ∧ read? "1e".toList = none ∧ read? "1 ".toList = none := by
  decide +kernel

end Numeral
end Gleaner
