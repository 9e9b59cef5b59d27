import Gleaner.Data.Datum

/-! # Faults in documents

Why a text has no value. Most texts without one are malformed, which needs no reason. The others are
well formed but contain a scalar that promises a value and has none, or a mapping with a key that
nothing can be found under. Where a fault would have to name an integer that is too long to be shown,
this is the fault.
-/

namespace Gleaner.Yaml

inductive Fault where
  | malformed
  /-- An escape names a code point behind the last one. -/
  | codePoint
  /-- An escape names a number that is no code point in any system. -/
  | hugeCodePoint
  /-- An integer has no digits in its base. -/
  | noDigits (base : Nat)
  /-- A decimal integer has more digits than are read. -/
  | manyDigits (count : Nat)
  /-- What is wrong cannot be told, because an integer to be named has more digits than are shown. -/
  | longInteger
  /-- A number has no digits. -/
  | float (written : Text)
  | calendar (fault : CalendarFault)
  /-- A key holds something of the named type, which is no key. -/
  | keyless (type : Text)
deriving DecidableEq

/-- How a message begins that is about too many digits. -/
def digitLimit : Text :=
  "Exceeds the limit (".toList ++ Text.ofNat Datum.mostDigits ++
    " digits) for integer string conversion".toList

def digitAdvice : Text := "; use sys.set_int_max_str_digits() to increase the limit".toList

/-- The message of a fault. A malformed text has none of its own. -/
def Fault.message? : Fault → Option Text
  | malformed => none
  | codePoint => some "chr() arg not in range(0x110000)".toList
  | hugeCodePoint => some "Python int too large to convert to C int".toList
  | noDigits base =>
    some ("invalid literal for int() with base ".toList ++ Text.ofNat base ++ ": ''".toList)
  | manyDigits count =>
    some (digitLimit ++ ": value has ".toList ++ Text.ofNat count ++ " digits".toList ++ digitAdvice)
  | longInteger => some (digitLimit ++ digitAdvice)
  | float written => some ("could not convert string to float: ".toList ++ Text.quote written)
  | calendar (.year given) => some ("year ".toList ++ Text.ofNat given ++ " is out of range".toList)
  | calendar .month => some "month must be in 1..12".toList
  | calendar .day => some "day is out of range for month".toList
  | calendar .hour => some "hour must be in 0..23".toList
  | calendar .minute => some "minute must be in 0..59".toList
  | calendar .second => some "second must be in 0..59".toList
  | calendar (.zone minutes) =>
    some ("offset must be a timedelta strictly between -timedelta(hours=24) and ".toList ++
      "timedelta(hours=24), not ".toList ++ Zone.shownDistance minutes ++ ['.'])
  | calendar .beyond => some "date value out of range".toList
  | keyless type => some ("unhashable type: ".toList ++ Text.quote type)

end Gleaner.Yaml
