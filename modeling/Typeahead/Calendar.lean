import Typeahead.Number.Shortest

/-!
# Dates and times

Dates of the Gregorian calendar, and times of day with an optional distance from
universal time.  Two times with such a distance are the same when they name the
same instant; a time without one is never the same as a time with one.
-/

namespace Typeahead

/-- A date. -/
structure Date where
  year : Nat
  month : Nat
  day : Nat
  deriving DecidableEq, Repr

/-- A time of a day, with microseconds.  `offset` counts minutes ahead of universal
time. -/
structure DateTime where
  date : Date
  hour : Nat
  minute : Nat
  second : Nat
  microsecond : Nat
  offset : Option Int
  deriving DecidableEq, Repr

namespace Date

/-- The days before a month in a year that is not a leap year. -/
def daysBeforeMonth (month : Nat) : Nat :=
  ([31, 28, 31, 30, 31, 30, 31, 31, 30, 31, 30].take (month - 1)).foldl (· + ·) 0

/-- Whether a year has a 29th of February. -/
def isLeap (year : Nat) : Bool :=
  year % 4 == 0 && (year % 100 != 0 || year % 400 == 0)

/-- The days from the first day of the calendar. -/
def dayNumber (d : Date) : Int :=
  let y : Int := (d.year : Int) - 1
  365 * y + y / 4 - y / 100 + y / 400 + daysBeforeMonth d.month +
    (if isLeap d.year && decide (2 < d.month) then 1 else 0) + d.day

/-- Year, month and day with hyphens. -/
def iso (d : Date) : String :=
  FloatStyle.padded 4 d.year ++ "-" ++ FloatStyle.padded 2 d.month ++ "-" ++
    FloatStyle.padded 2 d.day

end Date

namespace DateTime

/-- The microseconds from the first day of the calendar, by the clock on the wall. -/
def wallMicroseconds (t : DateTime) : Int :=
  (((t.date.dayNumber * 24 + t.hour) * 60 + t.minute) * 60 + t.second) * 1000000 +
    t.microsecond

/-- Equality of instants. -/
def sameInstant (s t : DateTime) : Bool :=
  match s.offset, t.offset with
  | none, none => decide (s.wallMicroseconds = t.wallMicroseconds)
  | some a, some b =>
      decide (s.wallMicroseconds - a * 60000000 = t.wallMicroseconds - b * 60000000)
  | _, _ => false

/-- A distance from universal time as signed hours and minutes. -/
def offsetText (minutes : Int) : String :=
  (if minutes < 0 then "-" else "+") ++ FloatStyle.padded 2 (minutes.natAbs / 60) ++ ":" ++
    FloatStyle.padded 2 (minutes.natAbs % 60)

/-- The fraction of a second; nothing when it is zero. -/
def fractionText (microsecond : Nat) : String :=
  if microsecond = 0 then "" else "." ++ FloatStyle.padded 6 microsecond

/-- Date and time of day around a separator. -/
def textWith (separator : String) (t : DateTime) : String :=
  t.date.iso ++ separator ++ FloatStyle.padded 2 t.hour ++ ":" ++
    FloatStyle.padded 2 t.minute ++ ":" ++ FloatStyle.padded 2 t.second ++
    fractionText t.microsecond ++ (t.offset.map offsetText).getD ""

/-- The form that documents carry. -/
def iso (t : DateTime) : String := t.textWith "T"

end DateTime

end Typeahead
