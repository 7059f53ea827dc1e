import FlowPipeline.Script.Place
import FlowPipeline.Script.Terminal
import FlowPipeline.Text.Digit

/-! # Tokens of scripts

What stands at a place of a script depends on the terminals that may come next: a slash divides or
opens a regular expression, a line may end a statement, a word may be a name. So a token is read for
a set of terminals.
-/

namespace FlowPipeline.Script

/-- What stands at a place. -/
structure Token where
  /-- Nothing if no terminal stands there. -/
  terminal : Option Terminal
  start : Place
  stop : Place
  /-- Whether the token is a word of the grammar, which may be a name as well. -/
  isWord : Bool

/-- The blanks between tokens. -/
def isBlank (c : Char) : Bool :=
  let n := c.toNat
  (9 ≤ n && n ≤ 13) || n == 0x20 || n == 0xA0 || n == 0x1680 || (0x2000 ≤ n && n ≤ 0x200B) ||
    n == 0x2028 || n == 0x2029 || n == 0x202F || n == 0x205F || n == 0x2060 || n == 0x3000 ||
    n == 0xFEFF

/-- The blanks at the ends of lines. -/
def isSpace (c : Char) : Bool :=
  let n := c.toNat
  isBlank c && n != 0xA0 && n != 0x2007 && n != 0x200B && n != 0x202F && n != 0x2060 && n != 0xFEFF

def isLineBreak (c : Char) : Bool := c = '\n' || c.toNat == 0x2028 || c.toNat == 0x2029

namespace Scanner

/-! ## Words and numbers -/

def isHex (c : Char) : Bool := (Text.hexDigit? c).isSome
def isOctal (c : Char) : Bool := '0' ≤ c && c ≤ '7'
def isBinary (c : Char) : Bool := c == '0' || c == '1'

/-- How many characters stand before one that does not belong to them. -/
def run (f : Char → Bool) (cs : List Char) : Nat := (cs.takeWhile f).length

/-- The characters that end a word. -/
def isWordEnd (c : Char) : Bool :=
  c.toNat < 0x20 || isBlank c || ":;\x60\"'@#.,|^&<=>+-*/\\%?!~()[]\x7b\x7d".toList.contains c

/-- How many characters an escape of a code point has behind the backslash. -/
def codeEscape (cs : List Char) : Nat :=
  match cs with
  | 'u' :: '\x7b' :: r =>
    let n := run isHex r
    if 0 < n && (r.drop n).head? = some '\x7d' then n + 3 else 0
  | 'u' :: r => if 4 ≤ run isHex r then 5 else 0
  | _ => 0

/-- How many characters a word has, without the next so many, which belong to an escape. -/
def wordFrom : (skipped : Nat) → List Char → Nat
  | _, [] => 0
  | n + 1, _ :: r => wordFrom n r + 1
  | 0, c :: r =>
    if c = '\\' then
      let n := codeEscape r
      if n = 0 then 0 else wordFrom n r + 1
    else if isWordEnd c then 0
    else wordFrom 0 r + 1

/-- How many characters the word has that starts here. -/
def word (cs : List Char) : Nat :=
  match cs with
  | [] => 0
  | c :: _ => if c.isDigit then 0 else wordFrom 0 cs

/-- How many characters digits have, each but the first perhaps behind a line. -/
def digits (f : Char → Bool) : List Char → Nat
  | [] => 0
  | c :: r => if f c then more r + 1 else 0
where
  more : List Char → Nat
    | '_' :: c :: r => if f c then more r + 2 else 0
    | c :: r => if f c then more r + 1 else 0
    | [] => 0

/-- How many characters an exponent has. -/
def exponent : List Char → Nat
  | [] => 0
  | e :: r =>
    let sign := run (fun c => c == '+' || c == '-') (r.take 1)
    let n := digits Char.isDigit (r.drop sign)
    if (e = 'e' ∨ e = 'E') ∧ 0 < n then 1 + sign + n else 0

/-- How many characters the whole part has of a number with a point or an exponent. It has no zero
before its first digit, except for one. -/
def whole (cs : List Char) : Nat :=
  let counted (cs : List Char) : Nat :=
    match cs with
    | c :: _ => if c != '0' then digits Char.isDigit cs else 0
    | [] => 0
  match cs with
  | '0' :: r => counted r + 1
  | _ => counted cs

/-- How many characters the number has that starts here. -/
def number (cs : List Char) : Nat :=
  let based (isDigit : Char → Bool) (r : List Char) : Nat :=
    let n := digits isDigit r
    if n = 0 then 0 else n + 2
  let prefixed :=
    match cs with
    | '0' :: b :: r =>
      if b = 'x' ∨ b = 'X' then based isHex r
      else if b = 'o' ∨ b = 'O' then based isOctal r
      else if b = 'b' ∨ b = 'B' then based isBinary r
      else 0
    | _ => 0
  let plain := max prefixed (digits Char.isDigit cs)
  let large := if 0 < plain && (cs.drop plain).head? = some 'n' then plain + 1 else 0
  let n := whole cs
  let fraction (r : List Char) : Nat :=
    let m := digits Char.isDigit r
    1 + m + exponent (r.drop m)
  let broken :=
    match n, cs.drop n with
    | 0, '.' :: r => if (r.headD ' ').isDigit then fraction r else 0
    | 0, _ => 0
    | n, '.' :: r => n + fraction r
    | n, r => if 0 < exponent r then n + exponent r else 0
  max (max plain large) broken

/-! ## Texts, regular expressions and comments -/

/-- How many characters an escape in a text has. -/
def escape : List Char → Nat
  | '\\' :: c :: r =>
    if (c = '\r' ∨ c = '?') ∧ isLineBreak (r.headD ' ') then 3
    else if isOctal c then 1 + min 3 (run isOctal (c :: r))
    else if c = 'x' then if 2 ≤ run isHex r then 4 else 0
    else if c = 'u' then
      let n := codeEscape (c :: r)
      if n = 0 then 0 else n + 1
    else 2
  | _ => 0

/-- How many characters of a template stand before its end, a hole or an escape. -/
def templateText : List Char → Option Nat
  | [] => none
  | '$' :: '\x7b' :: _ => some 0
  | c :: r =>
    if c = '\x00' then none
    else if c = '\x60' ∨ c = '\\' then some 0
    else (templateText r).map (· + 1)

/-- How many characters a class of a regular expression has behind its bracket, up to the closing
one. -/
def regexClass : List Char → Option Nat
  | [] => none
  | '\\' :: c :: r => if c = '\n' then none else (regexClass r).map (· + 2)
  | c :: r =>
    if c = '\n' ∨ c = '\\' then none
    else if c = ']' then some 1
    else (regexClass r).map (· + 1)

/-- How many characters a regular expression has between its slashes, without the next so many,
which belong to a class. -/
def regexFrom : (skipped : Nat) → List Char → Nat
  | _, [] => 0
  | n + 1, _ :: r => regexFrom n r + 1
  | 0, '\\' :: c :: r => if c = '\n' then 0 else regexFrom 0 r + 2
  | 0, c :: r =>
    if c = '\n' ∨ c = '/' ∨ c = '\\' then 0
    else if c = '[' then
      match regexClass r with
      | some n => regexFrom n r + 1
      | none => 0
    else regexFrom 0 r + 1

/-- How many characters stand before the end of a comment, with that end. -/
def commentRest : List Char → Option Nat
  | [] => none
  | '*' :: '/' :: _ => some 2
  | _ :: r => (commentRest r).map (· + 1)

/-- How many characters the comment has that starts here. -/
def comment : List Char → Nat
  | '/' :: '/' :: r => 2 + run (fun c => !isLineBreak c && c != '\r') r
  | '/' :: '*' :: r =>
    match commentRest r with
    | some n => n + 2
    | none => 0
  | _ => 0

/-! ## Ends of lines -/

/-- Whether a line ends a statement; if not, where this is seen and whether behind a comment. -/
inductive LineEnd where
  | found
  | absent (seen : Place) (isCommented : Bool)

/-- What a place behind the end of a line says about that end. -/
def lineEndBefore (valid : Terminals) (commented : Bool) (p : Place) : LineEnd :=
  let absentIf (b : Bool) (seen : Place) : LineEnd := if b then .absent seen commented else .found
  let isLetter (c : Char) : Bool := c.isAlpha || (127 < c.toNat && !isBlank c)
  match p.rest with
  | [] => .found
  | '\x7b' :: _ => absentIf (valid.contains .signatureEnd) p
  | '(' :: _ | '[' :: _ => absentIf (valid.contains .orOr) p
  | '+' :: r => absentIf (r.head? != some '+') p.next
  | '-' :: r => absentIf (r.head? != some '-') p.next
  | '!' :: r => absentIf (r.head? = some '=') p.next
  | 'i' :: 'n' :: r =>
    let stanceof := "stanceof".toList
    let isWhole (r : List Char) : Bool := !isLetter (r.headD ' ')
    absentIf (isWhole r || (stanceof.isPrefixOf r && isWhole (r.drop stanceof.length)))
      (p.advance 2)
  | c :: _ => absentIf ("\x60,.;*%><=?^|&:".toList.contains c) p

/-- What the lines behind the end of a line say about that end. -/
def lineEndBehind (valid : Terminals) : (fuel : Nat) → (commented : Bool) → Place → LineEnd
  | 0, commented, p => .absent p commented
  | fuel + 1, commented, p =>
    let q := p.dropWhile isSpace
    match q.rest with
    | '/' :: '/' :: _ =>
      lineEndBehind valid fuel true (q.dropWhile fun c => c != '\n' && c != '\x00')
    | '/' :: '*' :: r =>
      lineEndBehind valid fuel commented (q.advance (2 + (commentRest r).getD r.length))
    | '/' :: _ => .absent q.next commented
    | _ => lineEndBefore valid commented q

/-- Whether a statement ends here though no semicolon is written: at the end of a line, of a block
or of the script. -/
def lineEnd (valid : Terminals) (p : Place) : LineEnd :=
  let q := p.dropWhile fun c => isSpace c && c != '\n'
  match q.rest with
  | [] | '\x00' :: _ => .found
  | '\n' :: r => lineEndBehind valid (r.length + 1) false q.next
  | '\x7d' :: _ =>
    let r := q.next.dropWhile isSpace
    if r.char = ':' ∧ !valid.contains .orOr then .absent r false else .found
  | _ => .absent q false

/-! ## Tokens -/

/-- The question mark of a choice. What follows tells it from marks of what is optional. -/
def ternaryMark (p : Place) : Option Token :=
  let q := p.dropWhile isSpace
  let token : Token := ⟨some .ternaryMark, q, q.next, false⟩
  match q.rest with
  | '?' :: '?' :: _ => none
  | '?' :: _ =>
    match (q.next.dropWhile isSpace).rest with
    | ':' :: _ | ')' :: _ | ',' :: _ => none
    | '.' :: r => if (r.headD ' ').isDigit then some token else none
    | _ => some token
  | _ => none

/-- A comment as it is marked in pages. -/
def markComment (p : Place) : Option Token :=
  let q := p.dropWhile isSpace
  let token (n : Nat) : Option Token :=
    let stop := (q.advance n).dropWhile fun c => !isLineBreak c && c != '\x00'
    some ⟨some .markComment, q, stop, false⟩
  match q.rest with
  | '<' :: '!' :: '-' :: '-' :: _ => token 4
  | '-' :: '-' :: '>' :: _ => token 3
  | _ => none

/-- The tokens that depend on more than the characters they are made of. -/
def contextual (valid : Terminals) (p : Place) : Option Token :=
  if valid.contains .templateText then
    match templateText p.rest with
    | some (n + 1) =>
      if valid.contains .lineEnd then none
      else some ⟨some .templateText, p, p.advance (n + 1), false⟩
    | _ => none
  else if valid.contains .lineEnd || valid.contains .signatureEnd then
    match lineEnd valid p with
    | .found =>
      let t : Terminal := if valid.contains .lineEnd then .lineEnd else .signatureEnd
      some ⟨some t, p, p, false⟩
    | .absent seen commented =>
      if valid.contains .ternaryMark && !commented && seen.char = '?' then ternaryMark seen
      else none
  else if valid.contains .ternaryMark then ternaryMark p
  else if valid.contains .orOr || valid.contains .escape || valid.contains .regexBody then none
  else markComment p

/-- The tokens within texts and regular expressions, with how many characters each has. Before them
no blanks are skipped. -/
def innerTokens : List (Terminal × (List Char → Nat)) :=
  let isIn (quote c : Char) : Bool := c != quote && c != '\\' && c != '\r' && c != '\n'
  [(.doubleText, run (isIn '"')), (.singleText, run (isIn '\'')), (.escape, escape),
    (.regexEnd, fun cs => run (· == '/') (cs.take 1)), (.regexFlags, run Char.isLower),
    (.regexBody, regexFrom 0)]

def inner (valid : Terminals) (p : Place) : Option Token :=
  innerTokens.findSome? fun (t, length) =>
    let n := if valid.contains t then length p.rest else 0
    if 0 < n then some ⟨some t, p, p.advance n, false⟩ else none

/-- The longest sign that may come next. -/
def sign (valid : Terminals) (cs : List Char) : Option (Nat × Terminal) :=
  Terminal.signs.foldl (fun best (s, t) =>
    if (best.map (·.1)).getD 0 < s.length && s.isPrefixOf cs && valid.contains t then
      some (s.length, t)
    else best) none

/-- The token at a place, if one of the given terminals may come next. -/
def token (valid : Terminals) (p : Place) : Token :=
  match (contextual valid p).or (inner valid p) with
  | some t => t
  | none =>
    let q := p.dropWhile isBlank
    let plain (t : Terminal) (n : Nat) : Token := ⟨some t, q, q.advance n, false⟩
    let n := word q.rest
    match q.rest with
    | [] => plain .finish 0
    | c :: r =>
      if 0 < comment q.rest then plain .comment (comment q.rest)
      else if valid.contains .interpreter && c = '#' && r.head? = some '!' then
        plain .interpreter (run (· != '\n') q.rest)
      else if valid.contains .privateName && c = '#' && 0 < word r then
        plain .privateName (word r + 1)
      else
        let best := sign valid q.rest
        let m := if valid.contains .number then number q.rest else 0
        match best with
        | some (k, t) => if k < m then plain .number m else plain t k
        | none =>
          if 0 < m then plain .number m
          else if n = 0 then ⟨none, q, q, false⟩
          else
            match Terminal.words.lookup (q.rest.take n) with
            | some t =>
              ⟨some (if valid.contains t then t else .name), q, q.advance n, true⟩
            | none => plain .name n

end Scanner
end FlowPipeline.Script
