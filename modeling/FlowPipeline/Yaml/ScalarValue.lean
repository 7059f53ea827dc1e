import FlowPipeline.Number.Decimal
import FlowPipeline.Text.Base64
import FlowPipeline.Text.Small
import FlowPipeline.Value
import FlowPipeline.Yaml.Tag
import FlowPipeline.Yaml.Token

/-! # The values of YAML scalars

The tag of a scalar decides what its text writes. Underscores in numbers and the case of words have
no meaning.
-/

namespace FlowPipeline.Yaml

/-- Digits in a base, with an optional sign and an optional mark of the base in front. -/
def intInBase (base : Nat) (mark : List Char) (cs : List Char) : Except Error Int :=
  let t := Text.trimChars cs
  let r := Tag.unsigned t
  let ds := if mark.isPrefixOf (r.map Char.toLower) && mark != [] then r.drop mark.length else r
  let value? (c : Char) : Option Nat :=
    ((Text.digit? c).orElse fun _ => Text.hexDigit? c).filter (· < base)
  let values := ds.filterMap value?
  let digits := (ds.takeWhile fun c => (value? c).isSome).length
  if base = 10 ∧ LongInteger.limit < digits then .error (.long digits)
  else if ds.isEmpty || values.length != ds.length then .error (.integer base (String.ofList cs))
  else
    let n : Int := (values.foldl (fun n d => base * n + d) 0 : Nat)
    .ok (if t.head? = some '-' then -n else n)

/-- Several numbers, each counting sixty times as much as the next. -/
def sexagesimal (cs : List Char) : Except Error Int := do
  let ns ← (Text.parts ':' cs).mapM (intInBase 10 [])
  return ns.foldl (fun n d => 60 * n + d) 0

/-- An integer; underscores have no meaning. -/
def intOf (text : String) : Except Error Int :=
  let cs := text.toList.filter (· != '_')
  let r := Tag.unsigned cs
  let signed (i : Int) : Int := if cs.head? = some '-' then -i else i
  signed <$> match r with
    | ['0'] => .ok 0
    | '0' :: 'b' :: ds => intInBase 2 ['0', 'b'] ds
    | '0' :: 'x' :: ds => intInBase 16 ['0', 'x'] ds
    | '0' :: _ => intInBase 8 ['0', 'o'] r
    | [] => .error .empty
    | _ => if r.contains ':' then sexagesimal r else intInBase 10 [] r

/-- A decimal, or one of the names of the numbers that are none. -/
def floatText (cs : List Char) : Except Error Binary64 :=
  let t := Text.trimChars cs
  let r := Tag.unsigned t
  match Decimal.ofChars? t with
  | some d => .ok d.toBinary64
  | none =>
    if r = "inf".toList ∨ r = "infinity".toList then .ok (.infinite (t.head? = some '-'))
    else if r = "nan".toList then .ok .nan
    else .error (.float (String.ofList cs))

/-- A sum of numbers, each counting sixty times as much as the one before. -/
def sixtieths : (base : Nat) → (sum : Binary64) → List Binary64 → Binary64
  | _, sum, [] => sum
  | base, sum, x :: xs => sixtieths (60 * base) (sum.add (x.mul (.ofNat base))) xs

/-- A number with a fraction; underscores and case have no meaning. -/
def floatOf (text : String) : Except Error Binary64 :=
  let cs := Text.lower (text.toList.filter (· != '_'))
  let r := Tag.unsigned cs
  let signed (x : Binary64) : Binary64 := if cs.head? = some '-' then x.neg else x
  signed <$>
    if cs.isEmpty then .error .empty
    else if r = ".inf".toList then .ok (.infinite false)
    else if r = ".nan".toList then .ok .nan
    else if r.contains ':' then do
      return sixtieths 1 (.ofNat 0) (← (Text.parts ':' r).mapM floatText).reverse
    else floatText r

def boolOf (text : String) : Except Error Bool :=
  let word := String.ofList (Text.lower text.toList)
  if ["yes", "true", "on"].contains word then .ok true
  else if ["no", "false", "off"].contains word then .ok false
  else .error (.bool word)

/-- A date, or a moment if a time is written too. -/
def timeOf (text : String) : Except Error Scalar :=
  match Stamp.ofText? text with
  | none => .error .timestamp
  | some t =>
    match t.time with
    | none => (Date.of? t.year t.month t.day).mapError Error.calendar |>.map Scalar.date
    | some (hour, minute, second, micro, zone) =>
      (Moment.of? t.year t.month t.day hour minute second micro zone).mapError Error.calendar
        |>.map Scalar.moment

def bytesOf (text : String) : Except Error (List UInt8) :=
  let cs := text.toList
  if !cs.all fun c => c.toNat < 128 then .error .malformed
  else
    match Text.Base64.decode cs with
    | some bs => .ok bs
    | none => .error .malformed

/-- The value of a scalar. -/
def scalarOf (tag : Tag) (text : String) : Except Error Scalar :=
  match tag with
  | .null => .ok .null
  | .bool => Scalar.bool <$> boolOf text
  | .int => Scalar.int <$> intOf text
  | .float => Scalar.float <$> floatOf text
  | .timestamp => timeOf text
  | .binary => Scalar.bytes <$> bytesOf text
  | .text => .ok (.text text)
  | _ => .error .malformed

/-- Whether the text of a float is the name of the undefined number; any other text that writes an
undefined number writes one that equals no other. -/
def namesNan (text : String) : Bool :=
  Tag.unsigned (Text.lower (text.toList.filter (· != '_'))) = ".nan".toList

end FlowPipeline.Yaml
