import FlowPipeline.Text.Blank
import FlowPipeline.Text.Digit

/-! # Tags of YAML 1.1

The tag of a node names its type. A plain scalar without a tag has the tag of the notation it is
written in, and is a text if it is in none of them.
-/

namespace FlowPipeline.Yaml

/-- The types of nodes. -/
inductive Tag where
  | null
  | bool
  | int
  | float
  | timestamp
  | binary
  | text
  | list
  | map
  | set
  | orderedMap
  | pairs
  /-- The key whose value is merged into the mapping. -/
  | merge
  /-- The key of the value that stands for the whole mapping. -/
  | value
  | unknown
deriving DecidableEq, Repr

namespace Tag

/-- What stands in front of the names of the types that YAML defines. -/
def authority : String := "tag:yaml.org,2002:"

/-- The types by their names. -/
def names : List (String × Tag) := [
  ("null", .null), ("bool", .bool), ("int", .int), ("float", .float), ("timestamp", .timestamp),
  ("binary", .binary), ("str", .text), ("seq", .list), ("map", .map), ("set", .set),
  ("omap", .orderedMap), ("pairs", .pairs), ("merge", .merge), ("value", .value)]

def ofUri (uri : String) : Tag :=
  match names.find? fun n => authority ++ n.1 == uri with
  | some (_, t) => t
  | none => .unknown

end Tag

/-- The text without a line feed at its end; where a notation is recognised, one does not count. -/
def withoutLineFeed (cs : List Char) : List Char :=
  if cs.getLast? = some '\n' then cs.dropLast else cs

/-- A date, and a time of the day with it, as far as they are written. -/
structure Stamp where
  year : Nat
  month : Nat
  day : Nat
  /-- Whether month and day have two digits. -/
  wide : Bool
  /-- Hour, minute, second, microsecond and the minutes by which the clock is ahead of UTC. -/
  time : Option (Nat × Nat × Nat × Nat × Option Int)
deriving DecidableEq, Repr

namespace Stamp

def digitsOf (cs : List Char) : Nat :=
  Text.natOfDigits (cs.map fun c => c.toNat - 48)

/-- One or two digits, and how many. -/
def short? (cs : List Char) : Option (Nat × Nat × List Char) :=
  let ds := (cs.take 2).takeWhile Char.isDigit
  if ds.isEmpty then none else some (digitsOf ds, ds.length, cs.drop ds.length)

/-- Two digits behind a sign. -/
def pair? (sign : Char) : List Char → Option (Nat × List Char)
  | c :: a :: b :: r => if c = sign ∧ a.isDigit ∧ b.isDigit then some (digitsOf [a, b], r) else none
  | _ => none

/-- The minutes of an offset from UTC that ends the text. -/
def offset? : List Char → Option Int
  | ['Z'] => some 0
  | c :: r =>
    if c = '+' ∨ c = '-' then do
      let (h, _, r) ← short? r
      let (m, r) ← if r.isEmpty then some (0, r) else pair? ':' r
      if !r.isEmpty then none
      let minutes : Int := 60 * h + m
      return if c = '-' then -minutes else minutes
    else none
  | [] => none

/-- The time behind a date. -/
def time? (cs : List Char) : Option (Nat × Nat × Nat × Nat × Option Int) := do
  let isGap (c : Char) : Bool := c == ' ' || c == '\t'
  let r ←
    match cs with
    | c :: r =>
      if c = 'T' ∨ c = 't' then some r
      else if isGap c then some (r.dropWhile isGap)
      else none
    | [] => none
  let (hour, _, r) ← short? r
  let (minute, r) ← pair? ':' r
  let (second, r) ← pair? ':' r
  let (fraction, r) :=
    match r with
    | '.' :: r => (r.takeWhile Char.isDigit, r.dropWhile Char.isDigit)
    | r => ([], r)
  let micro := (fraction ++ List.replicate 6 '0').take 6
  let zone ← if r.isEmpty then some none else (offset? (r.dropWhile isGap)).map some
  return (hour, minute, second, digitsOf micro, zone)

def ofText? (s : String) : Option Stamp := do
  let cs := withoutLineFeed s.toList
  let y := cs.take 4
  if y.length != 4 || !y.all Char.isDigit then none
  let '-' :: r := cs.drop 4 | none
  let (month, m, r) ← short? r
  let '-' :: r := r | none
  let (day, d, r) ← short? r
  let time ← if r.isEmpty then some none else (time? r).map some
  return ⟨digitsOf y, month, day, m == 2 && d == 2, time⟩

end Stamp

namespace Tag

/-- The text without a sign in front. -/
def unsigned : List Char → List Char
  | '+' :: r => r
  | '-' :: r => r
  | r => r

def isDigitOrGap (c : Char) : Bool := c.isDigit || c == '_'

/-- A number of seconds or minutes behind a colon. -/
def isSixtieth : List Char → Bool
  | [a] => a.isDigit
  | [a, b] => '0' ≤ a && a ≤ '5' && b.isDigit
  | _ => false

/-- Digits in base sixty behind a first number, with colons between them. -/
def isSixtieths (first : Char → Bool) (cs : List Char) : Bool :=
  match Text.parts ':' cs with
  | (a :: r) :: d :: ds => first a && r.all isDigitOrGap && (d :: ds).all isSixtieth
  | _ => false

def isInt (cs : List Char) : Bool :=
  let digit (c : Char) : Bool := '1' ≤ c && c ≤ '9'
  let r := unsigned cs
  isSixtieths digit r ||
    match r with
    | '0' :: 'b' :: c :: r => (c :: r).all fun c => c == '0' || c == '1' || c == '_'
    | '0' :: 'x' :: c :: r => (c :: r).all fun c => (Text.hexDigit? c).isSome || c == '_'
    | '0' :: r => r.all fun c => ('0' ≤ c && c ≤ '7') || c == '_'
    | c :: r => digit c && r.all isDigitOrGap
    | [] => false

/-- An exponent with its sign, or none. -/
def isExponent : List Char → Bool
  | [] => true
  | e :: sign :: d :: ds =>
    (e == 'e' || e == 'E') && (sign == '+' || sign == '-') && (d :: ds).all Char.isDigit
  | _ => false

def isFloat (cs : List Char) : Bool :=
  let places (cs : List Char) : Bool := isExponent (cs.dropWhile isDigitOrGap)
  let r := unsigned cs
  let whole := r.takeWhile isDigitOrGap
  let sixtieths := r.takeWhile fun c => isDigitOrGap c || c == ':'
  let decimal : Bool :=
    match whole, r.drop whole.length with
    | d :: _, '.' :: r => d.isDigit && places r
    | _, _ => false
  let fraction : Bool :=
    match cs with
    | '.' :: d :: r => d.isDigit && places r
    | _ => false
  let sexagesimal : Bool :=
    match r.drop sixtieths.length with
    | '.' :: r => isSixtieths Char.isDigit sixtieths && r.all isDigitOrGap
    | _ => false
  decimal || fraction || sexagesimal ||
    [".inf", ".Inf", ".INF"].contains (String.ofList r) ||
    [".nan", ".NaN", ".NAN"].contains (String.ofList cs)

/-- The spellings of a word: small, capitalised, large. -/
def spellings : List String := [
  "yes", "Yes", "YES", "no", "No", "NO", "true", "True", "TRUE", "false", "False", "FALSE",
  "on", "On", "ON", "off", "Off", "OFF"]

/-- The type of a plain scalar, and of any that leaves its type to its notation. -/
def ofPlain (text : String) : Tag :=
  let cs := withoutLineFeed text.toList
  let s := String.ofList cs
  if text = "\n" then .text
  else if spellings.contains s then .bool
  else if isFloat cs then .float
  else if isInt cs then .int
  else if s = "<<" then .merge
  else if ["~", "null", "Null", "NULL", ""].contains s then .null
  else if (Stamp.ofText? s).any fun t => t.time.isSome || t.wide then .timestamp
  else if s = "=" then .value
  else if ["!", "&", "*"].contains s then .unknown
  else .text

example : ofPlain "010" = .int := by decide
example : ofPlain "1:30" = .int := by decide
example : ofPlain "1e3" = .text := by decide
example : ofPlain "2024-01-01" = .timestamp := by decide
example : ofPlain "2024-1-1" = .text := by decide
example : ofPlain "12\n" = .int := by decide

end Tag
end FlowPipeline.Yaml
