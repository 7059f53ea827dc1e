import FlowPipeline.Text.Digit

/-! # Days and moments of the Gregorian calendar -/

namespace FlowPipeline

/-- A day. -/
structure Date where
  year : Nat
  month : Nat
  day : Nat
deriving DecidableEq, Repr

/-- A time of a day, with the minutes by which its clock is ahead of UTC if that is known. -/
structure Moment where
  date : Date
  hour : Nat
  minute : Nat
  second : Nat
  microsecond : Nat
  offset : Option Int
deriving DecidableEq, Repr

/-- The part of a date or time that lies outside its range. -/
inductive CalendarError where
  | year (n : Nat)
  | month
  | day
  | hour
  | minute
  | second
  | offset (minutes : Int)
deriving DecidableEq, Repr

namespace Date

def isLeap (year : Nat) : Bool :=
  year % 4 == 0 && (year % 100 != 0 || year % 400 == 0)

def daysIn (year month : Nat) : Nat :=
  if month = 2 then (if isLeap year then 29 else 28)
  else if month = 4 ∨ month = 6 ∨ month = 9 ∨ month = 11 then 30
  else 31

/-- The day of the given number, if the calendar has it. -/
def of? (year month day : Nat) : Except CalendarError Date :=
  if year = 0 ∨ 9999 < year then .error (.year year)
  else if month = 0 ∨ 12 < month then .error .month
  else if day = 0 ∨ daysIn year month < day then .error .day
  else .ok ⟨year, month, day⟩

/-- The days from the first day of the year 1 to this one. -/
def ordinal (d : Date) : Nat :=
  let y := d.year - 1
  365 * y + y / 4 - y / 100 + y / 400 +
    (List.range (d.month - 1)).foldl (fun days m => days + daysIn d.year (m + 1)) 0 + d.day

/-- Year, month and day with hyphens between them. -/
def render (d : Date) : List Char :=
  Text.padded 4 d.year ++ '-' :: Text.padded 2 d.month ++ '-' :: Text.padded 2 d.day

end Date

namespace Moment

/-- A moment of a valid day, if the clock shows the given time and its offset is below a day. -/
def of? (year month day hour minute second microsecond : Nat) (offset : Option Int) :
    Except CalendarError Moment := do
  if let some o := offset then
    if 1440 ≤ o.natAbs then throw (.offset o)
  let date ← Date.of? year month day
  if 23 < hour then throw .hour
  if 59 < minute then throw .minute
  if 59 < second then throw .second
  return ⟨date, hour, minute, second, microsecond, offset⟩

/-- The microseconds from the start of the calendar in UTC. -/
def instant (m : Moment) : Int :=
  let minutes : Int := (m.date.ordinal * 24 + m.hour) * 60 + m.minute
  ((minutes - m.offset.getD 0) * 60 + m.second) * 1000000 + m.microsecond

/-- The offset from UTC as hours and minutes. -/
def renderOffset (minutes : Int) : List Char :=
  (if minutes < 0 then '-' else '+') :: Text.padded 2 (minutes.natAbs / 60) ++
    ':' :: Text.padded 2 (minutes.natAbs % 60)

/-- Date and time with `between` between them; parts of a second and the offset only if present. -/
def render (between : Char) (m : Moment) : List Char :=
  m.date.render ++ between :: Text.padded 2 m.hour ++ ':' :: Text.padded 2 m.minute ++
    ':' :: Text.padded 2 m.second ++
    (if m.microsecond = 0 then [] else '.' :: Text.padded 6 m.microsecond) ++
    (match m.offset with
    | none => []
    | some o => renderOffset o)

end Moment

namespace CalendarError

def message : CalendarError → String
  | .year n => "year " ++ toString n ++ " is out of range"
  | .month => "month must be in 1..12"
  | .day => "day is out of range for month"
  | .hour => "hour must be in 0..23"
  | .minute => "minute must be in 0..59"
  | .second => "second must be in 0..59"
  | .offset minutes =>
    let days := minutes / 1440
    let seconds := minutes % 1440 * 60
    let shown := if seconds = 0 then "days=" ++ toString days
      else "days=" ++ toString days ++ ", seconds=" ++ toString seconds
    "offset must be a timedelta strictly between -timedelta(hours=24) and " ++
      "timedelta(hours=24), not datetime.timedelta(" ++ shown ++ ")."

end CalendarError
end FlowPipeline
