import FlowPipeline.Text.Digit
import FlowPipeline.Yaml.Cursor
import FlowPipeline.Yaml.Token

/-! # Scalars of a YAML text

Each reader starts behind the sign that opens its scalar and returns the text of the scalar with the
place behind it. Line folding is that of YAML 1.1: one line break is a space, further breaks stay.
-/

namespace FlowPipeline.Yaml

/-- Line breaks and the blanks before them; a document marker may not begin a line. -/
def quotedBreaks : (fuel : Nat) → Cursor → Except Error (List Char × Cursor)
  | 0, c => .ok ([], c)
  | fuel + 1, c =>
    if c.isAnyMarker then .error .malformed
    else
      let c := c.dropWhile fun a => a == ' ' || a == '\t'
      if isBreak c.head then do
        let (b, c) := c.lineBreak
        let (bs, c) ← quotedBreaks fuel c
        return (b ++ bs, c)
      else .ok ([], c)

/-- A folded line break: a space if no further break follows it. -/
def folded (first : List Char) (more : List Char) : List Char :=
  if first != ['\n'] then first ++ more else if more.isEmpty then [' '] else more

/-- The characters that a letter after a backslash stands for. -/
def escapes : List (Char × Char) := [
  ('0', '\x00'), ('a', '\x07'), ('b', '\x08'), ('t', '\t'), ('\t', '\t'), ('n', '\n'),
  ('v', '\x0B'), ('f', '\x0C'), ('r', '\r'), ('e', '\x1B'), (' ', ' '), ('"', '"'), ('\\', '\\'),
  ('/', '/'), ('N', '\u0085'), ('_', '\u00A0'), ('L', '\u2028'), ('P', '\u2029')]

/-- How many hexadecimal digits follow a letter after a backslash. -/
def escapeWidth? (c : Char) : Option Nat :=
  if c = 'x' then some 2 else if c = 'u' then some 4 else if c = 'U' then some 8 else none

/-- The character of an escape in a double-quoted scalar, behind its backslash. -/
def escape (fuel : Nat) (c : Cursor) : Except Error (List Char × Cursor) :=
  match escapes.find? (·.1 == c.head) with
  | some (_, a) => .ok ([a], c.next)
  | none =>
    match escapeWidth? c.head with
    | some w =>
      let ds := (c.next.rest.take w).filterMap Text.hexDigit?
      let n := ds.foldl (fun n d => 16 * n + d) 0
      if ds.length ≠ w then .error .malformed
      else if 0x80000000 ≤ n then .error .wideCharacter
      else if 0x110000 ≤ n then .error .character
      else .ok ([Text.Utf16.charOf n], c.next.advance w)
    | none => if isBreak c.head then quotedBreaks fuel c.lineBreak.2 else .error .malformed

/-- A quoted scalar up to its closing quote. -/
def quotedText (double : Bool) : (fuel : Nat) → Cursor → Except Error (List Char × Cursor)
  | 0, _ => .error .malformed
  | fuel + 1, c =>
    let quote := if double then '"' else '\''
    let more (cs : List Char) (c : Cursor) : Except Error (List Char × Cursor) := do
      let (r, c) ← quotedText double fuel c
      return (cs ++ r, c)
    match c.rest with
    | [] => .error .malformed
    | a :: _ =>
      if a == quote then
        if !double && c.peek 1 == quote then more [quote] (c.advance 2) else .ok ([], c.next)
      else if double && a == '\\' then do
        let (cs, c) ← escape fuel c.next
        more cs c
      else if a == ' ' || a == '\t' || isBreak a then
        let (spaces, c) := c.takeWhile fun a => a == ' ' || a == '\t'
        if isBreak c.head then do
          let (b, c) := c.lineBreak
          let (bs, c) ← quotedBreaks fuel c
          more (folded b bs) c
        else more spaces c
      else more [a] c.next

/-- Line breaks and spaces after a line of a plain scalar, or nothing if a document marker
follows. -/
def plainBreaks : (fuel : Nat) → Cursor → Option (List Char) × Cursor
  | 0, c => (some [], c)
  | fuel + 1, c =>
    if c.head == ' ' then plainBreaks fuel c.next
    else if isBreak c.head then
      let (b, c) := c.lineBreak
      if c.isAnyMarker then (none, c)
      else
        let (bs, c) := plainBreaks fuel c
        (bs.map (b ++ ·), c)
    else (some [], c)

/-- What joins two parts of a plain scalar, and whether a line ended between them. -/
def plainSpaces (fuel : Nat) (c : Cursor) : List Char × Bool × Cursor :=
  let (spaces, c) := c.takeWhile (· == ' ')
  if isBreak c.head then
    let (b, c) := c.lineBreak
    if c.isAnyMarker then ([], true, c)
    else
      match plainBreaks fuel c with
      | (some bs, c) => (folded b bs, true, c)
      | (none, c) => ([], true, c)
  else (spaces, false, c)

/-- How many characters of a plain scalar stand here without a blank. -/
def plainLength (flow : Bool) : List Char → Nat
  | [] => 0
  | a :: r =>
    let next := r.headD endMark
    if isBlankOrEnd a || (flow && ",?[]\x7b\x7d".toList.contains a) ||
        (a == ':' && (isBlankOrEnd next || (flow && ",[]\x7b\x7d".toList.contains next))) then 0
    else plainLength flow r + 1

/-- A plain scalar whose further lines are indented to `indent` at least. It also says whether a
line ended behind its last part. -/
def plainText (flow : Bool) (indent : Int) : (fuel : Nat) → (spaces : List Char) → Bool → Cursor →
    List Char × Bool × Cursor
  | 0, _, broken, c => ([], broken, c)
  | fuel + 1, spaces, broken, c =>
    let n := if c.head == '#' then 0 else plainLength flow c.rest
    if n = 0 then ([], broken, c)
    else
      let part := c.rest.take n
      let (gap, ended, d) := plainSpaces fuel (c.advance n)
      if gap.isEmpty || d.head == '#' || (!flow && d.column < indent) then
        (spaces ++ part, ended, d)
      else
        let (more, ended, d) := plainText flow indent fuel gap ended d
        (spaces ++ part ++ more, ended, d)

/-- What becomes of the line breaks at the end of a block scalar. -/
inductive Chomping where
  | strip
  | clip
  | keep
deriving DecidableEq

/-- The signs after the one that opens a block scalar: chomping and the depth of indentation. -/
def blockHeader (c : Cursor) : Except Error ((Chomping × Option Nat) × Cursor) :=
  let chomping? (c : Cursor) : Option (Chomping × Cursor) :=
    if c.head == '+' then some (.keep, c.next)
    else if c.head == '-' then some (.strip, c.next)
    else none
  let depth? (c : Cursor) : Option (Nat × Cursor) :=
    if c.head.isDigit then some (c.head.toNat - 48, c.next) else none
  let (chomping, depth, c) :=
    match chomping? c with
    | some (h, c) =>
      match depth? c with
      | some (d, c) => (h, some d, c)
      | none => (h, none, c)
    | none =>
      match depth? c with
      | some (d, c) =>
        match chomping? c with
        | some (h, c) => (h, some d, c)
        | none => (.clip, some d, c)
      | none => (.clip, none, c)
  if depth = some 0 ∨ !isSpaceOrEnd c.head then .error .malformed
  else
    let c := c.dropWhile (· == ' ')
    let c := if c.head == '#' then c.dropWhile fun a => !isBreakOrEnd a else c
    if isBreakOrEnd c.head then .ok ((chomping, depth), c.lineBreak.2) else .error .malformed

/-- Blank lines at the start of a block scalar, and the greatest column they reach. -/
def leadingLines : (fuel : Nat) → (widest : Nat) → Cursor → List Char × Nat × Cursor
  | 0, widest, c => ([], widest, c)
  | fuel + 1, widest, c =>
    if c.head == ' ' then leadingLines fuel (max widest c.next.column) c.next
    else if isBreak c.head then
      let (b, c) := c.lineBreak
      let (bs, widest, c) := leadingLines fuel widest c
      (b ++ bs, widest, c)
    else ([], widest, c)

/-- Spaces up to a column. -/
def indentTo (column : Nat) (c : Cursor) : Cursor :=
  c.advance ((c.rest.take (column - c.column)).takeWhile (· == ' ')).length

/-- Blank lines within a block scalar, then the indentation of the line after them. -/
def blankLines (column : Nat) : (fuel : Nat) → Cursor → List Char × Cursor
  | 0, c => ([], c)
  | fuel + 1, c =>
    let c := indentTo column c
    if isBreak c.head then
      let (b, c) := c.lineBreak
      let (bs, c) := blankLines column fuel c
      (b ++ bs, c)
    else ([], c)

/-- The lines of a block scalar that stand at `column`, with the breaks before each. -/
def blockLines (fold : Bool) (chomping : Chomping) (column : Nat) :
    (fuel : Nat) → (breaks : List Char) → Cursor → List Char × Cursor
  | 0, _, c => ([], c)
  | fuel + 1, breaks, c =>
    let indented (c : Cursor) : Bool := c.head == ' ' || c.head == '\t'
    let (line, d) := c.takeWhile fun a => !isBreakOrEnd a
    let (ending, d) := d.lineBreak
    let (gap, d) := blankLines column fuel d
    if d.column == column && d.head != endMark then
      let joint :=
        if fold && ending == ['\n'] && !indented c && !indented d then
          (if gap.isEmpty then [' '] else [])
        else ending
      let (more, d) := blockLines fold chomping column fuel gap d
      (breaks ++ line ++ joint ++ more, d)
    else
      let tail :=
        match chomping with
        | .strip => []
        | .clip => ending
        | .keep => ending ++ gap
      (breaks ++ line ++ tail, d)

/-- A block scalar inside a collection that is indented to `indent`. -/
def blockText (fold : Bool) (indent : Int) (c : Cursor) : Except Error (List Char × Cursor) := do
  let fuel := c.size + 1
  let ((chomping, depth), c) ← blockHeader c
  let least := max 1 (indent + 1).toNat
  let (column, breaks, c) :=
    match depth with
    | none =>
      let (bs, widest, c) := leadingLines fuel 0 c
      (max least widest, bs, c)
    | some d =>
      let column := least + d - 1
      let (bs, c) := blankLines column fuel c
      (column, bs, c)
  if c.column == column && c.head != endMark then
    return blockLines fold chomping column fuel breaks c
  else
    return (if chomping = .keep then breaks else [], c)

end FlowPipeline.Yaml
