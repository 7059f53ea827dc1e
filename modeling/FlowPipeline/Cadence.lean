import FlowPipeline.Calendar
import FlowPipeline.Number.Decimal
import FlowPipeline.Text.Blank
import FlowPipeline.Text.Capital

/-! # Cadences

A cadence is one of a few fixed phrases, or `every` and a duration. A duration is a decimal number
and a unit; without a unit it counts milliseconds.
-/

namespace FlowPipeline.Cadence

def second : Nat := 1000
def minute : Nat := 60 * second
def hour : Nat := 60 * minute
def day : Nat := 24 * hour
def week : Nat := 7 * day

/-- A year of 365 days and a quarter. -/
def year : Nat := 1461 * day / 4

/-- The shortest interval that may be scheduled. -/
def shortest : Nat := 5 * minute

/-- The phrases that stand for a duration. -/
def phrases : List (String × String) := [
  ("every half day", "12h"), ("every half hour", "30m"), ("every quarter hour", "15m"),
  ("every hour", "1h"), ("every day", "1d"), ("every month", "30d"), ("every week", "1w")]

/-- The units of durations and their milliseconds. -/
def units : List (String × Nat) := [
  ("years", year), ("year", year), ("yrs", year), ("yr", year), ("y", year),
  ("weeks", week), ("week", week), ("w", week),
  ("days", day), ("day", day), ("d", day),
  ("hours", hour), ("hour", hour), ("hrs", hour), ("hr", hour), ("h", hour),
  ("minutes", minute), ("minute", minute), ("mins", minute), ("min", minute), ("m", minute),
  ("seconds", second), ("second", second), ("secs", second), ("sec", second), ("s", second),
  ("milliseconds", 1), ("millisecond", 1), ("msecs", 1), ("msec", 1), ("ms", 1)]

def lower (cs : List Char) : String := String.ofList (cs.map Text.fold)

/-- The characters of a number: a hyphen, digits and a point among them, the last one a digit. -/
def numberPart (cs : List Char) : List Char :=
  let isDigit (c : Char) : Bool := (Text.digit? c).isSome
  let sign := (cs.take 1).takeWhile (· == '-')
  let r := cs.drop sign.length
  let whole := r.takeWhile isDigit
  match r.drop whole.length with
  | '.' :: r =>
    let places := r.takeWhile isDigit
    sign ++ whole ++ if places.isEmpty then [] else '.' :: places
  | _ => sign ++ whole

/-- The milliseconds of a duration; what follows the decimal point of their number is cut off. -/
def duration? (text : String) : Option Int :=
  if 100 < text.length then none
  else
    let cs := Text.trimChars text.toList
    let number := numberPart cs
    let unit := lower ((cs.drop number.length).dropWhile (· == ' '))
    match Decimal.ofChars? number, units.lookup (if unit.isEmpty then "ms" else unit) with
    | some d, some length => (d.toBinary64.mul (.ofNat length)).truncate?
    | _, _ => none

/-- How far a moment is inside the current interval, counted from the full hour. -/
def offset (length : Int) (now : Moment) : Int :=
  let elapsed : Int := now.minute * minute + now.second * second + now.microsecond / 1000
  if length ≤ 0 then 0 else elapsed % length

/-- A schedule: the interval as it was written, its milliseconds, and the offset of a moment. -/
structure Interval where
  text : String
  length : Int
  offset : Int
deriving DecidableEq, Repr

/-- Why a cadence gives no schedule. -/
inductive Fault where
  | tooShort
  | invalid
deriving DecidableEq, Repr

def Fault.name : Fault → String
  | .tooShort => "sync_interval_too_short"
  | .invalid => "sync_interval_invalid"

def Fault.message (cadence : String) : Fault → String
  | .tooShort =>
    "The interval \"" ++ cadence ++ "\" is too short. The minimum interval is 5 minutes."
  | .invalid => "The interval \"" ++ cadence ++ "\" is not a valid interval."

/-- The text of the interval that a cadence names, and whether it is one of the fixed phrases. -/
def intervalText (cadence : String) : String × Bool :=
  let text := Text.collapse cadence
  match phrases.lookup (lower text.toList) with
  | some interval => (interval, true)
  | none =>
    let cs := text.toList
    let lead := "every ".toList
    if lead.isPrefixOf (cs.map Text.fold) then (String.ofList (cs.drop lead.length), false)
    else (text, false)

/-- The schedule of a cadence at a moment. -/
def resolve (cadence : String) (now : Moment) : Except Fault Interval :=
  let (text, fixed) := intervalText cadence
  match duration? text with
  | none => .error .invalid
  | some length =>
    if !fixed && length < shortest then .error .tooShort
    else .ok ⟨text, length, offset length now⟩

example : duration? "1.5 h" = some 5400000 := by decide
example : duration? "1." = none := by decide

end FlowPipeline.Cadence
