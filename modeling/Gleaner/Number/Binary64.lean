/-! # Floating-point numbers of 64 bits

A number is its sign and its magnitude, the magnitude as the bit pattern without the sign bit read as
a natural number. Patterns grow with the numbers they denote, and the pattern after a number denotes
the next larger one, so rounding a significand up into the next binade is the same addition as any
other. Values are read from exact quotients; no machine arithmetic is involved. Not-a-number values
do not occur.
-/

namespace Gleaner

/-- A binary floating-point number of the 64-bit format, not-a-number excluded. -/
structure Binary64 where
  negative : Bool
  pattern : Nat
deriving DecidableEq, Repr

namespace Binary64

/-- The leading bit of a full significand, which patterns leave out. The bits below it are the
fraction. -/
def leadingBit : Nat := Nat.pow 2 52

/-- How often the least positive number goes into one. -/
def unitsPerOne : Nat := Nat.pow 2 1074

/-- The bit above the magnitude. -/
def signBit : Nat := Nat.pow 2 63

/-- The pattern of infinity: all exponent bits set. -/
def infinitePattern : Nat := 2047 * leadingBit

/-- The quotient rounded to the nearest natural number, halves to the even one. -/
def roundDiv (n d : Nat) : Nat :=
  let q := n / d
  let r := n % d
  if 2 * r < d then q else if d < 2 * r then q + 1 else q + q % 2

/-- The magnitude pattern nearest to `n / d`. The quotient is counted in units of the least
positive number; from `2 ^ 53` units on, `binade` low bits of the count do not fit. -/
def nearestPattern (n d : Nat) : Nat :=
  let units := n * unitsPerOne
  let binade := (units / d).log2 - 52
  min infinitePattern (binade * leadingBit + roundDiv units (d * Nat.pow 2 binade))

/-- The number nearest to `± coefficient · 10 ^ exponent`. A decimal with more than 309 digits
before its point is infinite and one that starts more than 323 zeros behind it is zero, so
that no power beyond those is ever formed. -/
def ofDecimal (negative : Bool) (coefficient : Nat) (exponent : Int) : Binary64 :=
  let digits : Int := (Nat.toDigits 10 coefficient).length
  ⟨negative,
    if coefficient = 0 ∨ digits + exponent ≤ -324 then 0
    else if 310 ≤ digits + exponent then infinitePattern
    else if 0 ≤ exponent then nearestPattern (coefficient * Nat.pow 10 exponent.toNat) 1
    else nearestPattern coefficient (Nat.pow 10 (-exponent).toNat)⟩

/-- The number nearest to an integer. -/
def ofInt (i : Int) : Binary64 := ofDecimal (decide (i < 0)) i.natAbs 0

def isFinite (x : Binary64) : Bool := x.pattern < infinitePattern

def isZero (x : Binary64) : Bool := x.pattern == 0

/-- Significand and binade: the magnitude of a finite number is `significand · 2 ^ (binade - 1074)`. -/
def parts (x : Binary64) : Nat × Nat :=
  let exponent := x.pattern / leadingBit
  let fraction := x.pattern % leadingBit
  if exponent = 0 then (fraction, 0) else (leadingBit + fraction, exponent - 1)

/-- The integer that a finite number is, if it is one. -/
def toInt? (x : Binary64) : Option Int :=
  if !x.isFinite then none
  else
    let (significand, binade) := x.parts
    let units := significand * Nat.pow 2 binade
    if units % unitsPerOne = 0 then
      let magnitude : Int := (units / unitsPerOne : Nat)
      some (if x.negative then -magnitude else magnitude)
    else none

/-- Whether the number equals the integer. -/
def equalsInt (x : Binary64) (i : Int) : Bool := x.toInt? == some i

/-- All 64 bits, the sign first. -/
def bits (x : Binary64) : Nat := (if x.negative then signBit else 0) + x.pattern

/-- The number with the given 64 bits. -/
def ofBits (bits : Nat) : Binary64 := ⟨signBit ≤ bits, bits % signBit⟩

example : (ofDecimal false 35 (-1)).bits = 0x400c000000000000 := by decide +kernel
example : (ofDecimal true 0 7).bits = 0x8000000000000000 := by decide +kernel
example : (ofDecimal false 5 (-324)).bits = 1 ∧ (ofDecimal false 24 (-325)).bits = 0 := by
  decide +kernel
example : (ofDecimal false 17976931348623158080 289).pattern = infinitePattern := by
  decide +kernel

end Binary64
end Gleaner
