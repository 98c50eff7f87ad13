import SubclassIndex.Text.Basic

/-!
# Dates and times

Dates of the Gregorian calendar in the years 1 to 9999, and times of day on such a date that may
say how far they are from universal time.
-/

namespace SubclassIndex.Document

/-- Whether a year has a twenty-ninth of February. -/
def isLeapYear (year : Nat) : Bool := year % 4 = 0 && (year % 100 ≠ 0 || year % 400 = 0)

/-- The number of days of a month. -/
def daysInMonth (year month : Nat) : Nat :=
  match month with
  | 2 => if isLeapYear year then 29 else 28
  | 4 | 6 | 9 | 11 => 30
  | _ => 31

/-- A day of the calendar. -/
structure Date where
  year : Nat
  month : Nat
  day : Nat
  deriving DecidableEq

namespace Date

/-- Whether there is such a day. -/
def isValid (d : Date) : Bool :=
  decide (1 ≤ d.year ∧ d.year ≤ 9999 ∧ 1 ≤ d.month ∧ d.month ≤ 12 ∧ 1 ≤ d.day ∧
    d.day ≤ daysInMonth d.year d.month)

/-- The number of days from a fixed day to this one. -/
def dayNumber (d : Date) : Nat :=
  let before := d.year - 1
  365 * before + before / 4 - before / 100 + before / 400 +
    (List.range (d.month - 1)).foldr (fun m days => daysInMonth d.year (m + 1) + days) 0 + d.day

/-- Year, month and day with hyphens. -/
def text (d : Date) : Text :=
  Text.ofNatPadded 4 d.year ++ "-" ++ Text.ofNatPadded 2 d.month ++ "-" ++ Text.ofNatPadded 2 d.day

end Date

/-- A time on a date. `offset` is how many minutes the clock is ahead of universal time. -/
structure Timestamp where
  date : Date
  hour : Nat
  minute : Nat
  second : Nat
  microsecond : Nat
  offset : Option Int
  deriving DecidableEq

namespace Timestamp

/-- The minutes of a day. -/
def minutesPerDay : Nat := 1440

/-- Whether there is such a time; a clock is less than a day away from universal time. -/
def isValid (t : Timestamp) : Bool :=
  t.date.isValid &&
    decide (t.hour < 24 ∧ t.minute < 60 ∧ t.second < 60 ∧ t.microsecond < 1000000) &&
    t.offset.all fun o => decide (o.natAbs < minutesPerDay)

/-- The microseconds from a fixed instant to this one by a clock of universal time. -/
def instant (t : Timestamp) : Int :=
  (((t.date.dayNumber * minutesPerDay + t.hour * 60 + t.minute : Nat) - t.offset.getD 0) * 60 +
    t.second) * 1000000 + t.microsecond

/-- An offset as a sign, hours and minutes. -/
def offsetText (o : Int) : Text :=
  let sign : Text := if o < 0 then "-" else "+"
  sign ++ Text.ofNatPadded 2 (o.natAbs / 60) ++ ":" ++
    Text.ofNatPadded 2 (o.natAbs % 60)

/-- Date and time of day with a space between. Microseconds are left out where they are zero. -/
def text (t : Timestamp) : Text :=
  let fraction : Text :=
    if t.microsecond = 0 then [] else "." ++ Text.ofNatPadded 6 t.microsecond
  let offset : Text := (t.offset.map offsetText).getD []
  t.date.text ++ " " ++ Text.ofNatPadded 2 t.hour ++ ":" ++ Text.ofNatPadded 2 t.minute ++ ":" ++
    Text.ofNatPadded 2 t.second ++ fraction ++ offset

end Timestamp

end SubclassIndex.Document
