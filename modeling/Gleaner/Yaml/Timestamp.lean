import Gleaner.Data.Datum
import Gleaner.Number.Numeral
import Gleaner.Yaml.Fault

/-! # Timestamps

Scalars that are dates or moments. A date alone has two digits for the month and the day; in front of a
time one is enough. The time may have a fraction and a zone, which is a letter for the common clock or a
distance from it.
-/

namespace Gleaner.Yaml.Timestamp

/-- A number of at least `least` and at most `most` digits, and what follows it. -/
def takeNumber? (least most : Nat) (s : Text) : Option (Nat × Text) :=
  let digits := (s.take most).takeWhile Char.isDigit
  if least ≤ digits.length then some (Numeral.digitsValue digits, s.drop digits.length) else none

/-- What follows a character, if it comes next. -/
def expect? (c : Char) : Text → Option Text
  | [] => none
  | d :: s => if c = d then some s else none

/-- Three numbers with a character between them, and what follows. -/
def takeThree? (mark : Char) (first second third : Nat × Nat) (s : Text) : Option (Nat × Nat × Nat × Text) := do
  let (a, s) ← takeNumber? first.1 first.2 s
  let (b, s) ← takeNumber? second.1 second.2 (← expect? mark s)
  let (c, s) ← takeNumber? third.1 third.2 (← expect? mark s)
  return (a, b, c, s)

def isSpace (c : Char) : Bool := c == ' ' || c == '\t'

/-- What stands between a date and a time: a letter or white space. -/
def takeGap? : Text → Option Text
  | [] => none
  | c :: s =>
    if c = 'T' ∨ c = 't' then some s else if isSpace c then some (s.dropWhile isSpace) else none

/-- The zone at the end of a time: its text, and by how many minutes it is ahead. -/
def readZone? (s : Text) : Option (Option (Text × Int)) :=
  match s.dropWhile isSpace with
  | [] => if s.isEmpty then some none else none
  | ['Z'] => some (some (['Z'], 0))
  | c :: rest => do
    guard (c = '+' ∨ c = '-')
    let (hours, s) ← takeNumber? 1 2 rest
    let minutes : Nat ←
      if s.isEmpty then pure 0
      else do
        let (minutes, s) ← takeNumber? 2 2 (← expect? ':' s)
        guard s.isEmpty
        pure minutes
    let ahead : Int := 60 * hours + minutes
    return some (c :: rest, if c = '-' then -ahead else ahead)

/-- The numbers that a timestamp is made of. -/
structure Written where
  date : Nat × Nat × Nat
  time : Nat × Nat × Nat
  /-- The digits behind the point of the second. -/
  fraction : Text
  zone : Option (Text × Int)

/-- The numbers of a date with a time. -/
def readWritten? (s : Text) : Option Written := do
  let (year, month, day, s) ← takeThree? '-' (4, 4) (1, 2) (1, 2) s
  let (hour, minute, second, s) ← takeThree? ':' (1, 2) (2, 2) (2, 2) (← takeGap? s)
  let (fraction, s) :=
    match s with
    | '.' :: s => (s.takeWhile Char.isDigit, s.dropWhile Char.isDigit)
    | s => ([], s)
  let zone ← readZone? s
  return ⟨(year, month, day), (hour, minute, second), fraction, zone⟩

/-- The microseconds that a fraction of a second is nearest to, a half counting as more. -/
def microseconds (fraction : Text) : Nat :=
  Numeral.digitsValue ((fraction.take 6).rightpad 6 '0') +
    (if (fraction.drop 6).head?.any ('5' ≤ ·) then 1 else 0)

/-- The moment that is written. A fraction that is nearest to a whole second is one. -/
def Written.moment (w : Written) : Except CalendarFault Moment := do
  let zone ← w.zone.mapM fun (name, minutes) => Zone.ofMinutes name minutes
  let (year, month, day) := w.date
  let (hour, minute, second) := w.time
  let micros := microseconds w.fraction
  if micros < Moment.microsecondsPerSecond then
    Moment.ofNumbers year month day hour minute second micros zone
  else (← Moment.ofNumbers year month day hour minute second 0 zone).nextSecond

/-- The numbers of a date without a time. -/
def readDate? (s : Text) : Option (Nat × Nat × Nat) := do
  let (year, month, day, s) ← takeThree? '-' (4, 4) (2, 2) (2, 2) s
  guard s.isEmpty
  return (year, month, day)

/-- The date or moment that a scalar is; nothing if it is none. -/
def read? (s : Text) : Option (Except Fault Datum) :=
  match readDate? s with
  | some (year, month, day) =>
    some (((Date.ofNumbers year month day).map .date).mapError .calendar)
  | none => (readWritten? s).map fun w => (w.moment.map .moment).mapError .calendar

end Gleaner.Yaml.Timestamp
