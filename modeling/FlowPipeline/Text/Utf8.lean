import FlowPipeline.Text.Digit
import FlowPipeline.Text.Utf16

/-! # UTF-8

Decoding stops at the first ill-formed sequence and says which bytes are at fault. The bytes blamed
are the longest start of a well-formed sequence that the text breaks off. A text is encoded unless
it holds half of a pair.
-/

namespace FlowPipeline.Text.Utf8

/-- Why bytes are no UTF-8. -/
inductive Fault where
  /-- No character starts with this byte. -/
  | start
  /-- A character is interrupted. -/
  | continuation
  /-- The bytes end within a character. -/
  | truncated
deriving DecidableEq, Repr

/-- Where decoding stops, and at which bytes. -/
structure DecodeError where
  position : Nat
  bytes : List UInt8
  fault : Fault
deriving DecidableEq, Repr

def Fault.message : Fault → String
  | .start => "invalid start byte"
  | .continuation => "invalid continuation byte"
  | .truncated => "unexpected end of data"

def DecodeError.message (e : DecodeError) : String :=
  match e.bytes with
  | [b] =>
    "'utf-8' codec can't decode byte 0x" ++ String.ofList (hex 2 b.toNat) ++ " in position " ++
      toString e.position ++ ": " ++ e.fault.message
  | bs =>
    "'utf-8' codec can't decode bytes in position " ++ toString e.position ++ "-" ++
      toString (e.position + bs.length - 1) ++ ": " ++ e.fault.message

def isTail (b : UInt8) : Bool := 0x80 ≤ b && b < 0xC0

/-- Whether `b` may be the second byte of a sequence that starts with `a`: no overlong form, no
surrogate, nothing past the last code point. -/
def isSecond (a b : UInt8) : Bool :=
  isTail b && (a != 0xE0 || 0xA0 ≤ b) && (a != 0xED || b < 0xA0) && (a != 0xF0 || 0x90 ≤ b) &&
    (a != 0xF4 || b < 0x90)

/-- How many bytes the sequence has that starts with this byte. -/
def width? (a : UInt8) : Option Nat :=
  if a < 0x80 then some 1
  else if a < 0xC2 then none
  else if a < 0xE0 then some 2
  else if a < 0xF0 then some 3
  else if a < 0xF5 then some 4
  else none

/-- The bytes that may follow `a`, at most `n` of them. -/
def tailOf (a : UInt8) : Nat → List UInt8 → List UInt8
  | n + 1, b :: bs => if isSecond a b then b :: (bs.takeWhile isTail).take n else []
  | _, _ => []

/-- The code point of a well-formed sequence. -/
def codePoint (a : UInt8) (tail : List UInt8) : Nat :=
  let lead :=
    match tail.length with
    | 0 => a.toNat
    | 1 => a.toNat % 32
    | 2 => a.toNat % 16
    | _ => a.toNat % 8
  tail.foldl (fun n b => 64 * n + b.toNat % 64) lead

def decodeFrom (position : Nat) : (fuel : Nat) → List UInt8 → Except DecodeError (List Char)
  | 0, _ => .ok []
  | _ + 1, [] => .ok []
  | fuel + 1, a :: bs =>
    match width? a with
    | none => .error ⟨position, [a], .start⟩
    | some w =>
      let tail := tailOf a (w - 1) bs
      if tail.length + 1 = w then
        (decodeFrom (position + w) fuel (bs.drop (w - 1))).map (Char.ofNat (codePoint a tail) :: ·)
      else if tail.length = bs.length then .error ⟨position, a :: tail, .truncated⟩
      else .error ⟨position, a :: tail, .continuation⟩

/-- The text that the bytes encode. -/
def decode (bs : List UInt8) : Except DecodeError String :=
  (decodeFrom 0 bs.length bs).map String.ofList

/-- The bytes of one character. -/
def encodeChar (c : Char) : List UInt8 :=
  let n := c.toNat
  let tail (unit : Nat) : UInt8 := .ofNat (0x80 + n / unit % 64)
  if n < 0x80 then [.ofNat n]
  else if n < 0x800 then [.ofNat (0xC0 + n / 64), tail 1]
  else if n < 0x10000 then [.ofNat (0xE0 + n / 4096), tail 64, tail 1]
  else [.ofNat (0xF0 + n / 262144), tail 4096, tail 64, tail 1]

/-- The bytes of a text of characters. -/
def encode (s : String) : List UInt8 :=
  s.toList.flatMap encodeChar

/-- Halves of pairs that stand together in a text, and where they start. -/
structure EncodeError where
  position : Nat
  first : UInt16
  /-- How many halves follow the first. -/
  more : Nat
deriving DecidableEq, Repr

def EncodeError.message (e : EncodeError) : String :=
  let start := toString e.position
  "'utf-8' codec can't encode " ++
    (if e.more = 0 then
      "character '\\u" ++ String.ofList (hex 4 e.first.toNat) ++ "' in position " ++ start
    else "characters in position " ++ start ++ "-" ++ toString (e.position + e.more)) ++
    ": surrogates not allowed"

/-- The bytes of a text, unless it holds half of a pair. -/
def encoded (s : String) : Except EncodeError (List UInt8) :=
  let fault := s.toList.dropWhile fun c => !Utf16.isHalf c
  match fault.head?.bind Utf16.half? with
  | none => .ok (encode s)
  | some u =>
    .error ⟨s.toList.length - fault.length, u, (fault.takeWhile Utf16.isHalf).length - 1⟩

end FlowPipeline.Text.Utf8
