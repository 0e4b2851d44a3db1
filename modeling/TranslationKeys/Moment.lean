import TranslationKeys.Number.Integer

/-!
# Moments

Dates, times of day and time stamps, as configuration files state them. A moment has a text of its
own and another form in which it is shown inside a larger value.
-/

namespace TranslationKeys

/-- A day of the calendar. -/
structure Day where
  /-- The year. -/
  year : Nat
  /-- The month, from one. -/
  month : Nat
  /-- The day of the month, from one. -/
  day : Nat
  deriving DecidableEq, Repr

namespace Day

/-- Whether a year has a leap day. -/
def isLeap (year : Nat) : Bool :=
  year % 4 == 0 && (year % 100 != 0 || year % 400 == 0)

/-- The number of days in a month. -/
def daysInMonth (year month : Nat) : Nat :=
  if month == 2 then (if isLeap year then 29 else 28)
  else if [4, 6, 9, 11].contains month then 30
  else 31

/-- Whether the calendar has this day; years start with one. -/
def isValid (d : Day) : Bool :=
  1 ≤ d.year && 1 ≤ d.month && d.month ≤ 12 && 1 ≤ d.day && d.day ≤ daysInMonth d.year d.month

end Day

/-- A time of day. -/
structure Clock where
  /-- The hour. -/
  hour : Nat
  /-- The minute. -/
  minute : Nat
  /-- The second. -/
  second : Nat
  /-- The microseconds. -/
  micros : Nat := 0
  deriving DecidableEq, Repr

/-- A date, a time, or both with an optional offset in minutes from universal time. -/
inductive Moment where
  /-- A date. -/
  | date (day : Day)
  /-- A time of day. -/
  | time (clock : Clock)
  /-- A time stamp. -/
  | stamp (day : Day) (clock : Clock) (offset : Option Int)
  deriving DecidableEq, Repr

namespace Moment

/-- A number with leading zeros up to a width. -/
def padded (width n : Nat) : String :=
  let ds := Integer.natDigits n
  String.ofList (List.replicate (width - ds.length) '0' ++ ds)

/-- The text of a number. -/
def plain (n : Nat) : String :=
  String.ofList (Integer.natDigits n)

/-- The text of a date. -/
def dayText (d : Day) : String :=
  padded 4 d.year ++ "-" ++ padded 2 d.month ++ "-" ++ padded 2 d.day

/-- The text of a time of day; microseconds are left out if there are none. -/
def clockText (c : Clock) : String :=
  padded 2 c.hour ++ ":" ++ padded 2 c.minute ++ ":" ++ padded 2 c.second ++
    (if c.micros == 0 then "" else "." ++ padded 6 c.micros)

/-- The text of an offset. -/
def offsetText (minutes : Int) : String :=
  (if minutes < 0 then "-" else "+") ++ padded 2 (minutes.natAbs / 60) ++ ":" ++
    padded 2 (minutes.natAbs % 60)

/-- The text of a moment. -/
def text : Moment → String
  | date day => dayText day
  | time clock => clockText clock
  | stamp day clock offset =>
    dayText day ++ " " ++ clockText clock ++ offset.elim "" offsetText

/-- The parts of a time of day without the zeros at the end, hour and minute apart. -/
def clockParts (c : Clock) : List String :=
  [plain c.hour, plain c.minute] ++
    (if c.micros != 0 then [plain c.second, plain c.micros]
      else if c.second != 0 then [plain c.second]
      else [])

/-- The parts of a date. -/
def dayParts (d : Day) : List String :=
  [plain d.year, plain d.month, plain d.day]

/-- How an offset is shown: a negative one counts up from the day before. -/
def zoneParts (minutes : Int) : List String :=
  if minutes == 0 then ["tzinfo=datetime.timezone.utc"]
  else
    let span := if minutes < 0 then "days=-1, seconds=" ++ plain ((minutes + 1440) * 60).toNat
      else "seconds=" ++ plain (minutes * 60).toNat
    ["tzinfo=datetime.timezone(datetime.timedelta(" ++ span ++ "))"]

/-- A name with its parts in parentheses. -/
def applied (name : String) (parts : List String) : String :=
  name ++ "(" ++ String.intercalate ", " parts ++ ")"

/-- How a moment is shown inside another value. -/
def shown : Moment → String
  | date day => applied "datetime.date" (dayParts day)
  | time clock => applied "datetime.time" (clockParts clock)
  | stamp day clock offset =>
    applied "datetime.datetime" (dayParts day ++ clockParts clock ++ offset.elim [] zoneParts)

/-- The name of a moment's kind. -/
def kindName : Moment → String
  | date _ => "date"
  | time _ => "time"
  | stamp .. => "datetime"

end Moment

end TranslationKeys
