import FlowPipeline.Text.Digit
import FlowPipeline.Text.Printable
import FlowPipeline.Text.Utf16

/-! # Quoted texts and quoted bytes

A quoted text stands between single quotes, or between double quotes when it holds a single quote
and no double one. What does not print is escaped by its code point.
-/

namespace FlowPipeline.Text

/-- The quote that needs fewer escapes; the single one if either does. -/
def quoteFor (single double : Bool) : Char :=
  if single && !double then '"' else '\''

/-- How one character is written between the given quotes. -/
def escapeChar (quote c : Char) : List Char :=
  if c = quote ∨ c = '\\' then ['\\', c]
  else if c = '\t' then ['\\', 't']
  else if c = '\n' then ['\\', 'n']
  else if c = '\r' then ['\\', 'r']
  else if isPrintable c then [c]
  else if let some u := Utf16.half? c then '\\' :: 'u' :: hex 4 u.toNat
  else if c.toNat < 0x100 then '\\' :: 'x' :: hex 2 c.toNat
  else if c.toNat < 0x10000 then '\\' :: 'u' :: hex 4 c.toNat
  else '\\' :: 'U' :: hex 8 c.toNat

/-- The text between quotes. -/
def quoted (s : String) : List Char :=
  let quote := quoteFor (s.toList.contains '\'') (s.toList.contains '"')
  quote :: s.toList.flatMap (escapeChar quote) ++ [quote]

/-- How one byte is written between the given quotes. -/
def escapeByte (quote : Char) (b : UInt8) : List Char :=
  let c := Char.ofNat b.toNat
  if c = quote ∨ c = '\\' then ['\\', c]
  else if c = '\t' then ['\\', 't']
  else if c = '\n' then ['\\', 'n']
  else if c = '\r' then ['\\', 'r']
  else if 0x20 ≤ b ∧ b < 0x7F then [c]
  else '\\' :: 'x' :: hex 2 b.toNat

/-- The bytes between quotes, marked by a `b` in front. -/
def quotedBytes (bs : List UInt8) : List Char :=
  let quote := quoteFor (bs.contains 39) (bs.contains 34)
  'b' :: quote :: bs.flatMap (escapeByte quote) ++ [quote]

example : quoted "it's" = "\"it's\"".toList := by decide
example : quotedBytes [104, 105, 10] = "b'hi\\n'".toList := by decide

end FlowPipeline.Text
