import Sift.Text.Digits

namespace Sift

/-- A day of the proleptic Gregorian calendar. A value may hold numbers that no calendar has; `Date.fault?`
names the first of them. -/
structure Date where
  year : Int
  month : Nat
  day : Nat
  deriving DecidableEq, Repr

/-- A time of day to the millisecond. -/
structure Time where
  hours : Nat
  minutes : Nat
  seconds : Nat
  milliseconds : Nat
  deriving DecidableEq, Repr

/-- A part of a date or time that is out of its range. -/
inductive Component where
  | month
  | day
  | hour
  | minute
  | second
  | millisecond
  deriving DecidableEq, Repr

namespace Component

def name : Component → String
  | month => "month"
  | day => "day"
  | hour => "hour"
  | minute => "minute"
  | second => "second"
  | millisecond => "millisecond"

end Component

namespace Date

/-- Years divisible by 4 are leap years, centuries only if divisible by 400. -/
def isLeapYear (year : Int) : Bool :=
  year % 4 == 0 && (year % 100 != 0 || year % 400 == 0)

/-- How many days a month has. A number that is no month has none. -/
def daysIn (year : Int) (month : Nat) : Nat :=
  match month with
  | 1 | 3 | 5 | 7 | 8 | 10 | 12 => 31
  | 4 | 6 | 9 | 11 => 30
  | 2 => if isLeapYear year then 29 else 28
  | _ => 0

/-- The first part of a date that is out of its range. -/
def fault? (date : Date) : Option Component :=
  if date.month < 1 ∨ 12 < date.month then some .month
  else if date.day < 1 ∨ daysIn date.year date.month < date.day then some .day
  else none

/-- A year takes at least four characters, its sign among them. -/
def yearText : Int → List Char
  | .ofNat n => padded 4 n
  | .negSucc n => '-' :: padded 3 (n + 1)

/-- The written form: year, month and day with dashes between. -/
def written (date : Date) : List Char :=
  yearText date.year ++ '-' :: padded 2 date.month ++ '-' :: padded 2 date.day

def text (date : Date) : String :=
  String.ofList date.written

end Date

namespace Time

/-- The first part of a time that is out of its range. -/
def fault? (time : Time) : Option Component :=
  if 24 ≤ time.hours then some .hour
  else if 60 ≤ time.minutes then some .minute
  else if 60 ≤ time.seconds then some .second
  else if 1000 ≤ time.milliseconds then some .millisecond
  else none

/-- The written form: hours, minutes and seconds with colons between, then the milliseconds after
a point unless they are zero. -/
def written (time : Time) : List Char :=
  padded 2 time.hours ++ ':' :: padded 2 time.minutes ++ ':' :: padded 2 time.seconds ++
    if time.milliseconds = 0 then [] else '.' :: padded 3 time.milliseconds

def text (time : Time) : String :=
  String.ofList time.written

end Time

def dateTimeText (date : Date) (time : Time) : String :=
  String.ofList (date.written ++ 'T' :: time.written)

/-- A date or time that has the form of one but does not exist. -/
inductive CalendarFault where
  | date (date : Date) (part : Component)
  | time (time : Time) (part : Component)
  deriving DecidableEq, Repr

namespace CalendarFault

/-- What a message says of a date or time that does not exist. -/
def message : CalendarFault → String
  | date d part => "invalid date " ++ d.text ++ ": " ++ part.name ++ " was not in range"
  | time t part => "invalid time " ++ t.text ++ ": " ++ part.name ++ " was not in range"

end CalendarFault

end Sift
