import BranchForm.Text.Digit

/-!
# Moments of time

A document may give a day of the calendar, or a point in time: a time of day on a day, to the
microsecond, perhaps with the distance of its clock from universal time.

* `Day` and `Clock` are a day and a time of day, `Day.isReal` and `Clock.isReal` tell those that
  exist;
* `Moment` is a day or a point in time; `Moment.display` is its text on its own, `Moment.literal`
  its text inside another value;
* `Moment.agrees` and `Moment.less?` compare moments: two points in time with a distance are
  compared by the instant they are, and no other moments of different forms are compared at all.
-/

namespace BranchForm

open BranchForm.Text (paddedDigits)

/-- A day of the calendar by its numbers. -/
structure Day where
  /-- The year. -/
  year : Nat
  /-- The month, counted from one. -/
  month : Nat
  /-- The day of the month, counted from one. -/
  day : Nat
  deriving DecidableEq, Repr, Inhabited

namespace Day

/-- Whether a year has a leap day. -/
def isLeap (year : Nat) : Bool := year % 4 == 0 && (year % 100 != 0 || year % 400 == 0)

/-- The lengths of the months of a year. -/
def monthLengths (year : Nat) : List Nat :=
  [31, if isLeap year then 29 else 28, 31, 30, 31, 30, 31, 31, 30, 31, 30, 31]

/-- Whether the calendar has the day; its years are those of four digits from the first one on. -/
def isReal (d : Day) : Bool :=
  1 ≤ d.year && d.year ≤ 9999 && 1 ≤ d.month && 1 ≤ d.day &&
    match (monthLengths d.year)[d.month - 1]? with
    | some n => d.day ≤ n
    | none => false

/-- The number of the day, counted from the first day of the first year. -/
def number (d : Day) : Nat :=
  let y := d.year - 1
  y * 365 + y / 4 - y / 100 + y / 400 + ((monthLengths d.year).take (d.month - 1)).foldr (· + ·) 0 +
    d.day

/-- The text of a day: year, month and day between hyphens. -/
def text (d : Day) : String :=
  s!"{paddedDigits 4 d.year}-{paddedDigits 2 d.month}-{paddedDigits 2 d.day}"

end Day

/-- A time of day. -/
structure Clock where
  /-- The hour. -/
  hour : Nat
  /-- The minute. -/
  minute : Nat
  /-- The second. -/
  second : Nat
  /-- The microsecond. -/
  micro : Nat := 0
  deriving DecidableEq, Repr, Inhabited

namespace Clock

/-- Whether a day has the time. -/
def isReal (c : Clock) : Bool := c.hour < 24 && c.minute < 60 && c.second < 60 && c.micro < 1000000

/-- The minutes that are over. -/
def minutes (c : Clock) : Nat := 60 * c.hour + c.minute

/-- The microseconds in the present minute. -/
def rest (c : Clock) : Nat := 1000000 * c.second + c.micro

/-- The text of a time of day; the microseconds are left out if there are none. -/
def text (c : Clock) : String :=
  s!"{paddedDigits 2 c.hour}:{paddedDigits 2 c.minute}:{paddedDigits 2 c.second}" ++
    (if c.micro = 0 then "" else "." ++ paddedDigits 6 c.micro)

end Clock

/-- A day, or a point in time with the minutes that its clock is ahead of universal time, if that is
told. -/
inductive Moment where
  /-- A day. -/
  | day (day : Day)
  /-- A point in time. -/
  | time (day : Day) (clock : Clock) (ahead : Option Int)
  deriving DecidableEq, Repr, Inhabited

namespace Moment

/-- Whether there is such a moment. A clock is less than a day away from universal time. -/
def isReal : Moment → Bool
  | .day d => d.isReal
  | .time d c ahead => d.isReal && c.isReal && ahead.all fun n => -1440 < n && n < 1440

/-- The distance of a clock from universal time as a text. -/
def aheadText (ahead : Int) : String :=
  (if ahead < 0 then "-" else "+") ++
    s!"{paddedDigits 2 (ahead.natAbs / 60)}:{paddedDigits 2 (ahead.natAbs % 60)}"

/-- The text of a moment on its own. -/
def display : Moment → String
  | .day d => d.text
  | .time d c ahead => s!"{d.text} {c.text}" ++ (ahead.map aheadText).getD ""

/-- The distance of a clock from universal time inside another text: in whole days and the seconds
beyond them. -/
def aheadLiteral (ahead : Int) : String :=
  if ahead = 0 then "datetime.timezone.utc"
  else
    let span := if ahead < 0 then s!"days=-1, seconds={60 * (ahead + 1440)}"
      else s!"seconds={60 * ahead}"
    s!"datetime.timezone(datetime.timedelta({span}))"

/-- The numbers of a time of day up to the last one that is not zero, hour and minute at least. -/
def clockNumbers (c : Clock) : List Nat :=
  [c.hour, c.minute] ++
    (if c.micro ≠ 0 then [c.second, c.micro] else if c.second ≠ 0 then [c.second] else [])

/-- The text of a moment inside another value. -/
def literal : Moment → String
  | .day d => s!"datetime.date({d.year}, {d.month}, {d.day})"
  | .time d c ahead =>
    let numbers := ([d.year, d.month, d.day] ++ clockNumbers c).map toString
    let zone := ahead.map fun n => s!"tzinfo={aheadLiteral n}"
    "datetime.datetime(" ++ ", ".intercalate (numbers ++ zone.toList) ++ ")"

/-- The name of the kind of a moment, as messages give it. -/
def kindName : Moment → String
  | .day _ => "date"
  | .time .. => "datetime"

/-- The microseconds from the first day of the first year to a point in time. -/
def instant (d : Day) (c : Clock) (ahead : Int) : Int :=
  60000000 * (1440 * (d.number : Int) + c.minutes - ahead) + c.rest

/-- What two moments are compared by, if they have an order. -/
def places? : Moment → Moment → Option (Int × Int)
  | .day d, .day e => some (d.number, e.number)
  | .time d c none, .time e k none => some (instant d c 0, instant e k 0)
  | .time d c (some m), .time e k (some n) => some (instant d c m, instant e k n)
  | _, _ => none

/-- Whether two moments are the same. -/
def agrees (m n : Moment) : Bool := (places? m n).any fun (a, b) => a == b

/-- Whether one moment is before another, if the two have an order. -/
def less? (m n : Moment) : Option Bool := (places? m n).map fun (a, b) => decide (a < b)

end Moment

end BranchForm
