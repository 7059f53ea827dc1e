/-! # A place in a YAML text

Lines and columns count from zero. A byte order mark has no column of its own.
-/

namespace FlowPipeline.Yaml

/-- The line breaks of YAML 1.1. -/
def isBreak (c : Char) : Bool :=
  c == '\n' || c == '\r' || c == '\u0085' || c == '\u2028' || c == '\u2029'

/-- The mark after the last character of a text. No text that is read holds it. -/
def endMark : Char := '\x00'

def isBreakOrEnd (c : Char) : Bool := isBreak c || c == endMark

def isSpaceOrEnd (c : Char) : Bool := c == ' ' || isBreakOrEnd c

def isBlankOrEnd (c : Char) : Bool := c == '\t' || isSpaceOrEnd c

/-- What is left to read, and where it starts. -/
structure Cursor where
  rest : List Char
  index : Nat
  line : Nat
  column : Nat
  /-- How many characters the whole text has. No more are left. -/
  size : Nat

namespace Cursor

def start (cs : List Char) : Cursor := ⟨cs, 0, 0, 0, cs.length⟩

/-- The character `n` places ahead. -/
def peek (c : Cursor) (n : Nat) : Char := c.rest.getD n endMark

def head (c : Cursor) : Char := c.rest.headD endMark

def next (c : Cursor) : Cursor :=
  match c.rest with
  | [] => c
  | a :: r =>
    if a == '\r' && r.headD endMark == '\n' then ⟨r, c.index + 1, c.line, c.column + 1, c.size⟩
    else if isBreak a then ⟨r, c.index + 1, c.line + 1, 0, c.size⟩
    else if a == '\uFEFF' then ⟨r, c.index + 1, c.line, c.column, c.size⟩
    else ⟨r, c.index + 1, c.line, c.column + 1, c.size⟩

def advance (c : Cursor) : Nat → Cursor
  | 0 => c
  | n + 1 => c.next.advance n

/-- The longest run of characters with a property, and the place after it. -/
def takeWhile (p : Char → Bool) (c : Cursor) : List Char × Cursor :=
  let cs := c.rest.takeWhile p
  (cs, c.advance cs.length)

def dropWhile (p : Char → Bool) (c : Cursor) : Cursor := (c.takeWhile p).2

/-- The line break at this place, read as a line feed unless it separates lines or paragraphs, and
the place after it; nothing if there is none. -/
def lineBreak (c : Cursor) : List Char × Cursor :=
  match c.rest with
  | '\r' :: '\n' :: _ => (['\n'], c.advance 2)
  | a :: _ =>
    if a == '\n' || a == '\r' || a == '\u0085' then (['\n'], c.next)
    else if a == '\u2028' || a == '\u2029' then ([a], c.next)
    else ([], c)
  | [] => ([], c)

/-- Whether a document marker stands here: three of `mark` and then a blank. -/
def isMarker (mark : Char) (c : Cursor) : Bool :=
  c.peek 0 == mark && c.peek 1 == mark && c.peek 2 == mark && isBlankOrEnd (c.peek 3)

def isAnyMarker (c : Cursor) : Bool := c.isMarker '-' || c.isMarker '.'

end Cursor
end FlowPipeline.Yaml
