/-! # UTF-16

A sequence of 16-bit units is what a JSON text denotes between its quotes. A unit that is half of a
pair may stand alone in it. No character is such a half; a text keeps one as a private-use character
that nothing else uses.
-/

namespace FlowPipeline.Text.Utf16

/-- The characters that stand for halves of pairs start here, one for each half. -/
def firstHalf : Nat := 0xF3800

/-- The unit that a character stands for, if it stands for half of a pair. -/
def half? (c : Char) : Option UInt16 :=
  if firstHalf ≤ c.toNat ∧ c.toNat < firstHalf + 0x800 then
    some (.ofNat (c.toNat - firstHalf + 0xD800))
  else none

def isHalf (c : Char) : Bool := (half? c).isSome

/-- The character of a code point, or the one that stands for it if it is half of a pair. -/
def charOf (n : Nat) : Char :=
  if n.isValidChar then Char.ofNat n else Char.ofNat (firstHalf + (n - 0xD800))

def isHigh (u : UInt16) : Bool := 0xD800 ≤ u && u < 0xDC00

def isLow (u : UInt16) : Bool := 0xDC00 ≤ u && u < 0xE000

def encodeChar (c : Char) : List UInt16 :=
  let n := c.toNat
  match half? c with
  | some u => [u]
  | none =>
    if n < 0x10000 then [.ofNat n]
    else [.ofNat (0xD800 + (n - 0x10000) / 0x400), .ofNat (0xDC00 + (n - 0x10000) % 0x400)]

def encode (s : String) : List UInt16 :=
  s.toList.flatMap encodeChar

/-- The code points; a surrogate that stands alone is its own. -/
def points : List UInt16 → List Nat
  | [] => []
  | [u] => [u.toNat]
  | u :: v :: r =>
    if isHigh u && isLow v then
      (0x10000 + (u.toNat - 0xD800) * 0x400 + (v.toNat - 0xDC00)) :: points r
    else u.toNat :: points (v :: r)

/-- The text of the units. -/
def decode (us : List UInt16) : String :=
  String.ofList ((points us).map charOf)

/-- Whether the code points of `a` come before those of `b`, or are the same. -/
def le (a b : List UInt16) : Bool :=
  let rec go : List Nat → List Nat → Bool
    | [], _ => true
    | _ :: _, [] => false
    | x :: xs, y :: ys => x < y || (x == y && go xs ys)
  go (points a) (points b)

example : decode (encode "a😀") = "a😀" := by decide
example : encode (decode [0xD83D, 97]) = [0xD83D, 97] := by decide

end FlowPipeline.Text.Utf16
