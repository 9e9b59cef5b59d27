import Gleaner.Text.Quoted

/-! # Dates and moments

Days of the calendar, and moments of a day by some clock. A clock may have a zone, which says how far it
is ahead of the common one; moments with and without a zone are never the same.
-/

namespace Gleaner

/-- What keeps numbers from being a date or a moment. -/
inductive CalendarFault where
  | year (given : Nat)
  | month
  | day
  | hour
  | minute
  | second
  /-- The clock of a zone is a day or more off the common one. -/
  | zone (minutes : Int)
  /-- The moment comes after the last one of the calendar. -/
  | beyond
deriving DecidableEq

/-- A day of the calendar. -/
structure Date where
  year : Nat
  month : Nat
  day : Nat
deriving DecidableEq

namespace Date

def isLeap (year : Nat) : Bool := year % 4 == 0 && (year % 100 != 0 || year % 400 == 0)

def daysOf (year month : Nat) : Nat :=
  if month = 2 then (if isLeap year then 29 else 28)
  else if month = 4 ∨ month = 6 ∨ month = 9 ∨ month = 11 then 30
  else 31

def lastYear : Nat := 9999

def ofNumbers (year month day : Nat) : Except CalendarFault Date :=
  if year = 0 ∨ lastYear < year then .error (.year year)
  else if month = 0 ∨ 12 < month then .error .month
  else if day = 0 ∨ daysOf year month < day then .error .day
  else .ok ⟨year, month, day⟩

/-- The number of days up to a date, that day included, since the calendar begins. -/
def ordinal (d : Date) : Nat :=
  let before := d.year - 1
  (List.range (d.month - 1)).foldl (fun days i => days + daysOf d.year (i + 1))
    (365 * before + before / 4 - before / 100 + before / 400 + d.day)

/-- The day after a date, if the calendar has one. -/
def next? (d : Date) : Option Date :=
  if d.day < daysOf d.year d.month then some { d with day := d.day + 1 }
  else if d.month < 12 then some ⟨d.year, d.month + 1, 1⟩
  else if d.year < lastYear then some ⟨d.year + 1, 1, 1⟩
  else none

/-- A number with zeros in front of it up to a width. -/
def padded (width n : Nat) : Text := (Text.ofNat n).leftpad width '0'

/-- A date from its year down to its day, as `2001-12-14`. -/
def shown (d : Date) : Text :=
  padded 4 d.year ++ '-' :: padded 2 d.month ++ '-' :: padded 2 d.day

example : (ofNumbers 2000 2 29).toOption = some ⟨2000, 2, 29⟩ := by decide +kernel
example : (ofNumbers 1900 2 29).toOption = none := by decide +kernel
example : ordinal ⟨1, 1, 1⟩ = 1 ∧ ordinal ⟨2001, 1, 1⟩ = 730486 := by decide +kernel

end Date

/-- The zone of a clock: its name, and by how many minutes it is ahead of the common clock. -/
structure Zone where
  name : Text
  minutes : Int
deriving DecidableEq

namespace Zone

def minutesPerDay : Nat := 24 * 60

/-- The zone of a clock that is less than a day off the common one. -/
def ofMinutes (name : Text) (minutes : Int) : Except CalendarFault Zone :=
  if minutes.natAbs < minutesPerDay then .ok ⟨name, minutes⟩ else .error (.zone minutes)

/-- The distance of a clock in whole days and the seconds above them, as far as these are not zero. -/
def shownDistance (minutes : Int) : Text :=
  let given (name : String) (n : Int) : List Text :=
    if n = 0 then [] else [name.toList ++ '=' :: Text.ofInt n]
  let parts := given "days" (minutes.fdiv minutesPerDay) ++
    given "seconds" (60 * minutes.fmod minutesPerDay)
  Text.applied "datetime.timedelta" (if parts.isEmpty then [['0']] else parts)

/-- The distance of a clock as hours and minutes with a sign. -/
def shown (z : Zone) : Text :=
  (if z.minutes < 0 then '-' else '+') :: Date.padded 2 (z.minutes.natAbs / 60) ++
    ':' :: Date.padded 2 (z.minutes.natAbs % 60)

end Zone

/-- A moment of a day by some clock. -/
structure Moment where
  date : Date
  hour : Nat
  minute : Nat
  second : Nat
  microsecond : Nat
  zone : Option Zone
deriving DecidableEq

namespace Moment

def microsecondsPerSecond : Nat := 1000000

def secondsPerDay : Nat := 24 * 60 * 60

def ofNumbers (year month day hour minute second microsecond : Nat) (zone : Option Zone) :
    Except CalendarFault Moment :=
  (Date.ofNumbers year month day).bind fun date =>
    if 24 ≤ hour then .error .hour
    else if 60 ≤ minute then .error .minute
    else if 60 ≤ second then .error .second
    else .ok ⟨date, hour, minute, second, microsecond, zone⟩

/-- The number of seconds of the day that have passed. -/
def secondOfDay (m : Moment) : Nat := (m.hour * 60 + m.minute) * 60 + m.second

/-- The beginning of the second after a moment. -/
def nextSecond (m : Moment) : Except CalendarFault Moment :=
  let second := m.secondOfDay + 1
  let startOn (date : Date) (second : Nat) : Moment :=
    ⟨date, second / 3600, second / 60 % 60, second % 60, 0, m.zone⟩
  if second < secondsPerDay then .ok (startOn m.date second)
  else
    match m.date.next? with
    | some date => .ok (startOn date 0)
    | none => .error .beyond

/-- The number of microseconds since the calendar begins, by the clock of the moment. -/
def microseconds (m : Moment) : Nat :=
  (m.date.ordinal * secondsPerDay + m.secondOfDay) * microsecondsPerSecond + m.microsecond

/-- Whether two moments are the same. Zones only matter in so far as both moments have one. -/
def sameAs (m n : Moment) : Bool :=
  let shift (z : Zone) : Int := z.minutes * 60 * microsecondsPerSecond
  match m.zone, n.zone with
  | none, none => m.microseconds == n.microseconds
  | some y, some z => (m.microseconds : Int) - shift y == n.microseconds - shift z
  | _, _ => false

/-- A moment from its year down to its zone. Microseconds are left out if there are none. -/
def shown (m : Moment) : Text :=
  m.date.shown ++ ' ' :: Date.padded 2 m.hour ++ ':' :: Date.padded 2 m.minute ++
    ':' :: Date.padded 2 m.second ++
    (if m.microsecond = 0 then [] else '.' :: Date.padded 6 m.microsecond) ++
    (m.zone.map Zone.shown).getD []

end Moment
end Gleaner
