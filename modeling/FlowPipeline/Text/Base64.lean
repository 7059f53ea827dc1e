/-! # Base 64

Three bytes are four digits of the alphabet; `=` fills up the last group.
-/

namespace FlowPipeline.Text.Base64

/-- The digit of a value below 64. -/
def digit (n : Nat) : Char :=
  if n < 26 then Char.ofNat (65 + n)
  else if n < 52 then Char.ofNat (71 + n)
  else if n < 62 then Char.ofNat (n - 4)
  else if n = 62 then '+'
  else '/'

/-- The value of a digit. -/
def value? (c : Char) : Option Nat :=
  if 'A' ≤ c ∧ c ≤ 'Z' then some (c.toNat - 65)
  else if 'a' ≤ c ∧ c ≤ 'z' then some (c.toNat - 71)
  else if '0' ≤ c ∧ c ≤ '9' then some (c.toNat + 4)
  else if c = '+' then some 62
  else if c = '/' then some 63
  else none

def encode : List UInt8 → List Char
  | [] => []
  | [a] => [digit (a.toNat / 4), digit (a.toNat % 4 * 16), '=', '=']
  | [a, b] =>
    [digit (a.toNat / 4), digit (a.toNat % 4 * 16 + b.toNat / 16), digit (b.toNat % 16 * 4), '=']
  | a :: b :: c :: bs =>
    digit (a.toNat / 4) :: digit (a.toNat % 4 * 16 + b.toNat / 16) ::
      digit (b.toNat % 16 * 4 + c.toNat / 64) :: digit (c.toNat % 64) :: encode bs

/-- The bytes of a sequence of digits followed by its padding. Characters outside the alphabet are
skipped, and so is what follows a complete padding; a group without its padding is refused. -/
def decodeGroup : List Char → List Nat → Option (List UInt8)
  | [], [] => some []
  | [], _ => none
  | c :: cs, group =>
    match value? c, group with
    | some d, [x, y, z] =>
      (decodeGroup cs []).map
        (.ofNat (x * 4 + y / 16) :: .ofNat (y % 16 * 16 + z / 4) :: .ofNat (z % 4 * 64 + d) :: ·)
    | some d, g => decodeGroup cs (g ++ [d])
    | none, [x, y, z] =>
      if c = '=' then some [.ofNat (x * 4 + y / 16), .ofNat (y % 16 * 16 + z / 4)]
      else decodeGroup cs group
    | none, [x, y] =>
      if c = '=' then
        if (cs.filter fun d => d = '=' ∨ (value? d).isSome).head? = some '=' then
          some [.ofNat (x * 4 + y / 16)]
        else decodeGroup cs group
      else decodeGroup cs group
    | none, _ => decodeGroup cs group

def decode (cs : List Char) : Option (List UInt8) :=
  decodeGroup cs []

example : encode [104, 105] = "aGk=".toList := by decide
example : decode "aGk=".toList = some [104, 105] := by decide

end FlowPipeline.Text.Base64
