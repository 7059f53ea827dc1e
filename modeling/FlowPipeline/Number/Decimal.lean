import FlowPipeline.Number.Binary64
import FlowPipeline.Text.Digit

/-! # Decimal notation of binary floating point

Reading rounds the written decimal to the nearest binary64 number. Writing takes the fewest digits
that read back, and of those the ones nearest to the number.
-/

namespace FlowPipeline

/-- A decimal number: `± coefficient * 10 ^ exponent`. -/
structure Decimal where
  negative : Bool
  coefficient : Nat
  exponent : Int
deriving DecidableEq, Repr

namespace Decimal

/-- How many decimal digits a number has; none for zero. -/
def length (n : Nat) : Nat :=
  if n = 0 then 0 else (Nat.toDigits 10 n).length

/-- The nearest binary64 number. What lies far outside the format's range is settled by the position
of the first digit, so that no huge power of ten is ever computed. -/
def toBinary64 (d : Decimal) : Binary64 :=
  let point := (length d.coefficient : Int) + d.exponent
  if d.coefficient = 0 ∨ point < -400 then .zero d.negative
  else if 400 < point then .infinite d.negative
  else if 0 ≤ d.exponent then .ofRatio d.negative (d.coefficient * Nat.pow 10 d.exponent.toNat) 1
  else .ofRatio d.negative d.coefficient (Nat.pow 10 (-d.exponent).toNat)

/-- The parts of a decimal text: digits, an optional point with digits, an optional exponent. A sign
stands in front if there is one. Digits of every script count. -/
def ofChars? (cs : List Char) : Option Decimal :=
  let (negative, cs) :=
    match cs with
    | '-' :: r => (true, r)
    | '+' :: r => (false, r)
    | r => (false, r)
  let digits (cs : List Char) : List Nat × List Char :=
    let ds := cs.takeWhile fun c => (Text.digit? c).isSome
    (ds.filterMap Text.digit?, cs.drop ds.length)
  let (whole, cs) := digits cs
  let (places, cs) :=
    match cs with
    | '.' :: r => digits r
    | r => ([], r)
  let exponent : Option Int :=
    match cs with
    | [] => some 0
    | c :: r =>
      if c = 'e' ∨ c = 'E' then
        let (minus, r) :=
          match r with
          | '-' :: t => (true, t)
          | '+' :: t => (false, t)
          | t => (false, t)
        match digits r with
        | ([], _) => none
        | (ds, []) =>
          let n : Int := Text.natOfDigits ds
          some (if minus then -n else n)
        | _ => none
      else none
  if whole.isEmpty && places.isEmpty then none
  else exponent.map fun e => ⟨negative, Text.natOfDigits (whole ++ places), e - places.length⟩

/-- The position of the decimal point after the first digit of `num / den`: the least `p` with
`num / den < 10 ^ p`. -/
def pointOf (num den : Nat) : Int :=
  if den ≤ num then length (num / den) else 1 - (length ((den - 1) / num) : Int)

/-- The coefficient of at most `n` digits nearest to `num / den`, its first digit at `point`, among
those that read back as `x`. -/
def nearest? (x : Binary64) (num den : Nat) (point : Int) (n : Nat) : Option Decimal :=
  let e := point - n
  let (a, b) :=
    if 0 ≤ e then (num, den * Nat.pow 10 e.toNat) else (num * Nat.pow 10 (-e).toNat, den)
  let low : Decimal := ⟨false, a / b, e⟩
  let high : Decimal := ⟨false, a / b + 1, e⟩
  match low.toBinary64 == x, high.toBinary64 == x with
  | true, true =>
    if 2 * (a % b) < b ∨ (2 * (a % b) = b ∧ a / b % 2 = 0) then some low else some high
  | true, false => some low
  | false, true => some high
  | false, false => none

/-- The decimal of the fewest digits that reads back as `x`; seventeen digits always do. -/
def shortestFrom (x : Binary64) (num den : Nat) (point : Int) (n : Nat) : (more : Nat) → Decimal
  | 0 =>
    (nearest? x num den point n).getD ⟨false, num, 0⟩
  | more + 1 =>
    match nearest? x num den point n with
    | some d => d
    | none => shortestFrom x num den point (n + 1) more

/-- The shortest decimal that reads back as `m * 2 ^ e`. -/
def shortest (m : Nat) (e : Int) : Decimal :=
  let (num, den) := if 0 ≤ e then (m * Nat.pow 2 e.toNat, 1) else (m, Nat.pow 2 (-e).toNat)
  if m = 0 then ⟨false, 0, 0⟩ else shortestFrom (.finite false m e) num den (pointOf num den) 1 16

/-- The digits without the zeros at their end, and the position of the point from their start. -/
def toDigits (d : Decimal) : List Char × Int :=
  let ds := Nat.toDigits 10 d.coefficient
  let kept := (ds.reverse.dropWhile (· == '0')).reverse
  if d.coefficient = 0 then (['0'], 1) else (kept, ds.length + d.exponent)

end Decimal

namespace Binary64

/-- The spellings of the numbers that are no decimals. -/
structure Spelling where
  infinity : String
  nan : String

/-- Digits with a point among them, while the first digit is no more than sixteen places before it
and three places after it. -/
def layOut (digits : List Char) (point : Int) : List Char :=
  if point < -3 ∨ 16 < point then
    let e := point - 1
    let mantissa :=
      match digits with
      | [] => []
      | [d] => [d]
      | d :: ds => d :: '.' :: ds
    mantissa ++ 'e' :: (if e < 0 then '-' else '+') :: Text.padded 2 e.natAbs
  else if point ≤ 0 then
    '0' :: '.' :: List.replicate point.natAbs '0' ++ digits
  else
    let n := point.toNat
    if digits.length ≤ n then digits ++ List.replicate (n - digits.length) '0' ++ ['.', '0']
    else digits.take n ++ '.' :: digits.drop n

/-- The shortest text that reads back as the number. -/
def render (spelling : Spelling) : Binary64 → String
  | .finite s m e =>
    let (digits, point) := (Decimal.shortest m e).toDigits
    String.ofList ((if s then ['-'] else []) ++ layOut digits point)
  | .infinite s => (if s then "-" else "") ++ spelling.infinity
  | .nan => spelling.nan

end Binary64
end FlowPipeline
