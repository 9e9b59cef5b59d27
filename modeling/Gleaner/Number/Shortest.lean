import Gleaner.Number.Binary64
import Gleaner.Text.Quoted

/-! # Shortest decimals

The decimal with the fewest digits that reads back as a given floating-point number, the nearest one
if there are several. All comparisons are between natural numbers: magnitudes are counted in quarters
of the spacing of the least numbers, so that the ends of the interval that reads back as a number are
whole.
-/

namespace Gleaner.Binary64

/-- How often the unit in which magnitudes are compared goes into one. -/
def quartersPerOne : Nat := 4 * unitsPerOne

/-- The magnitude of a finite number and the distances to the ends of the interval that reads back as it,
below and above, all in quarters of the least number. -/
def interval (x : Binary64) : Nat × Nat × Nat :=
  let (significand, binade) := x.parts
  let unit := Nat.pow 2 binade
  let below := if significand = leadingBit ∧ 0 < binade then unit else 2 * unit
  (4 * significand * unit, below, 2 * unit)

/-- The power of ten of the first digit of `n` quarters of the least number, where `n` is positive. -/
def leadingPower (n : Nat) : Int :=
  let whole := n / quartersPerOne
  if 0 < whole then (Nat.toDigits 10 whole).length - 1
  else
    match (List.range 400).find? fun j => quartersPerOne ≤ n * Nat.pow 10 (j + 1) with
    | some j => -(j + 1 : Int)
    | none => 0

/-- The decimal of `count` digits that reads back as the number with the given interval. Of the two
decimals next to the number the nearer one is preferred, the lower one if both are as near. -/
def decimalOf? (even : Bool) (magnitude below above : Nat) (first : Int) (count : Nat) :
    Option (Nat × Int) :=
  let power := first - count + 1
  let up := Nat.pow 10 power.toNat
  let down := Nat.pow 10 (-power).toNat
  let one := quartersPerOne
  let target := magnitude * down
  let low := target / (one * up)
  let reads (digits : Nat) : Bool :=
    let candidate := digits * one * up
    let gap := if candidate ≤ target then below * down else above * down
    let distance := (candidate - target) + (target - candidate)
    if even then distance ≤ gap else distance < gap
  let lowDistance := target - low * one * up
  let highDistance := (low + 1) * one * up - target
  if reads low && (lowDistance ≤ highDistance || !reads (low + 1)) then some (low, power)
  else if reads (low + 1) then some (low + 1, power)
  else none

/-- The digits and the power of ten of the last digit of the shortest decimal that reads back as the
magnitude of a finite number other than zero. -/
def shortest (x : Binary64) : Nat × Int :=
  let (magnitude, below, above) := x.interval
  let first := leadingPower magnitude
  ((List.range 17).findSome? fun n =>
    decimalOf? (x.pattern % 2 == 0) magnitude below above first (n + 1)).getD (0, 0)

/-- How a number is shown: with a point and at least one digit on both sides of it from `10 ^ -4` up to
below `10 ^ 16`, and else with a power of ten that has a sign and at least two digits. -/
def shown (x : Binary64) : Text :=
  let sign : Text := if x.negative then ['-'] else []
  if !x.isFinite then sign ++ "inf".toList
  else if x.isZero then sign ++ "0.0".toList
  else
    let (value, power) := x.shortest
    let digits := Nat.toDigits 10 value
    let kept := (digits.reverse.dropWhile (· == '0')).reverse
    let first : Int := power + digits.length - 1
    sign ++
      (if first < -4 ∨ 16 ≤ first then
        let fraction := kept.tail
        let exponent := Text.ofNat first.natAbs
        kept.take 1 ++ (if fraction.isEmpty then [] else '.' :: fraction) ++
          ('e' :: (if first < 0 then '-' else '+') :: exponent.leftpad 2 '0')
      else if first < 0 then
        "0.".toList ++ List.replicate (-first - 1).toNat '0' ++ kept
      else
        let whole := first.toNat + 1
        let fraction := kept.drop whole
        (kept.take whole).rightpad whole '0' ++ '.' :: (if fraction.isEmpty then ['0'] else fraction))

example : shown (ofDecimal false 15 (-1)) = "1.5".toList := by decide +kernel
example : shown (ofDecimal true 1 16) = "-1e+16".toList := by decide +kernel
example : shown (ofDecimal false 1 (-1)) = "0.1".toList := by decide +kernel
example : shown (ofDecimal false 5 (-324)) = "5e-324".toList := by decide +kernel
example : shown (ofDecimal false 123456789 0) = "123456789.0".toList := by decide +kernel

end Gleaner.Binary64
