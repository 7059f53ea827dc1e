import FlowPipeline.Text.Utf8
import FlowPipeline.Yaml.Scalar

/-! # The tokens of a YAML text

Indentation opens and closes block collections. A key that is not marked by `?` is recognised only
at the `:` behind it; its key token is then put in front of the tokens that were read since. No more
of a text is read than is needed to know its next token.
-/

namespace FlowPipeline.Yaml

/-- A place where a key may have started. -/
structure PendingKey where
  /-- How many tokens stand before it in the whole text. -/
  before : Nat
  /-- Whether nothing but a key may stand there. -/
  required : Bool
  index : Nat
  line : Nat
  column : Nat

/-- The tokens that were read and not yet taken, and what decides about the next one. -/
structure Scanner where
  cursor : Cursor
  tokens : List Token
  /-- How many tokens were taken. -/
  taken : Nat
  /-- The columns of the open block collections, innermost first; the last is the stream's. -/
  indents : List Int
  /-- The pending key of each open flow collection, innermost first; the last is the stream's. -/
  pending : List (Option PendingKey)
  /-- Whether a key may start at the next token. -/
  mayKey : Bool
  /-- Whether the end of the text was reached. -/
  done : Bool

namespace Scanner

/-- In front of a text; a byte order mark is skipped. -/
def start (cs : List Char) : Scanner :=
  let c := Cursor.start cs
  ⟨if c.head == '\uFEFF' then c.next else c, [], 0, [-1], [none], true, false⟩

def indent (s : Scanner) : Int := s.indents.headD (-1)

def inFlow (s : Scanner) : Bool := !(s.pending.drop 1).isEmpty

def push (t : Token) (s : Scanner) : Scanner := { s with tokens := s.tokens ++ [t] }

/-- Blanks, comments and line breaks; after a line break a key may start outside flow
collections. -/
def skipBlanks : (fuel : Nat) → Scanner → Scanner
  | 0, s => s
  | fuel + 1, s =>
    let c := s.cursor.dropWhile (· == ' ')
    let c := if c.head == '#' then c.dropWhile fun a => !isBreakOrEnd a else c
    if isBreak c.head then
      skipBlanks fuel { s with cursor := c.lineBreak.2, mayKey := s.mayKey || !s.inFlow }
    else { s with cursor := c }

/-- A key stands on one line and within 1024 characters of its `:`. -/
def isStale (c : Cursor) (k : PendingKey) : Bool :=
  k.line != c.line || 1024 < c.index - k.index

/-- The scanner without the pending keys that can no longer be keys. -/
def dropStale (s : Scanner) : Except Error Scanner :=
  let stale (k : PendingKey) := isStale s.cursor k
  if s.pending.any fun k => k.any fun k => k.required && stale k then .error .malformed
  else .ok { s with pending := s.pending.map fun k => k.filter fun k => !stale k }

/-- The scanner without the pending key of the innermost collection. -/
def dropPending (s : Scanner) : Except Error Scanner :=
  match s.pending with
  | none :: _ | [] => .ok s
  | some k :: outer =>
    if k.required then .error .malformed else .ok { s with pending := none :: outer }

/-- The scanner with a pending key at the next token, if a key may start there. -/
def savePending (s : Scanner) : Except Error Scanner := do
  if !s.mayKey then return s
  let s ← s.dropPending
  let c := s.cursor
  let key : PendingKey :=
    ⟨s.taken + s.tokens.length, !s.inFlow && s.indent == c.column, c.index, c.line, c.column⟩
  return { s with pending := some key :: s.pending.drop 1 }

/-- Closes the block collections that stand further right than `column`. -/
def closeTo (column : Int) (s : Scanner) : Scanner :=
  if s.inFlow then s
  else
    let closed := s.indents.takeWhile (column < ·)
    { s with
      indents := s.indents.drop closed.length
      tokens := s.tokens ++ closed.map fun _ => Token.blockEnd }

/-- Puts a token in front of the one that has `before` tokens before it. -/
def insert (t : Token) (before : Nat) (s : Scanner) : Scanner :=
  let n := before - s.taken
  { s with tokens := s.tokens.take n ++ t :: s.tokens.drop n }

/-- Opens a block collection at `column` in front of the token with `before` tokens before it,
unless one is open. -/
def openAt (column : Nat) (opening : Token) (before : Nat) (s : Scanner) : Scanner :=
  if s.inFlow || (column : Int) ≤ s.indent then s
  else { s.insert opening before with indents := column :: s.indents }

/-- Opens a block collection at the cursor, unless one is open. -/
def openHere (opening : Token) (s : Scanner) : Scanner :=
  s.openAt s.cursor.column opening (s.taken + s.tokens.length)

/-- One of the signs that stand alone: the token, and whether a key may follow. -/
def sign (t : Token) (width : Nat) (mayKey : Bool) (s : Scanner) : Scanner :=
  { s.push t with cursor := s.cursor.advance width, mayKey }

/-- A name of letters, digits, hyphens and underscores. -/
def nameAt (c : Cursor) : String × Cursor :=
  let (cs, c) := c.takeWhile fun a => a.isAlphanum || a == '-' || a == '_'
  (String.ofList cs, c)

def numberAt (c : Cursor) : Except Error (Nat × Cursor) :=
  match c.takeWhile Char.isDigit with
  | ([], _) => .error .malformed
  | (ds, c) =>
    if LongInteger.limit < ds.length then .error (.long ds.length)
    else .ok (Text.natOfDigits (ds.map fun d => d.toNat - 48), c)

/-- The bytes written as `%` and two digits, one after another. -/
def uriBytes : List Char → List UInt8
  | '%' :: a :: b :: r =>
    match Text.hexDigit? a, Text.hexDigit? b with
    | some x, some y => .ofNat (16 * x + y) :: uriBytes r
    | _, _ => []
  | _ => []

def isUriChar (a : Char) : Bool :=
  a.isAlphanum || "-;/?:@&=+$,_.!~*'()[]".toList.contains a

/-- The characters of a tag, with escaped bytes decoded. -/
def uriText : (fuel : Nat) → Cursor → Except Error (List Char × Cursor)
  | 0, c => .ok ([], c)
  | fuel + 1, c =>
    if c.head == '%' then
      match uriBytes c.rest with
      | [] => .error .malformed
      | bs =>
        match Text.Utf8.decode bs with
        | .ok s => do
          let d := c.advance (3 * bs.length)
          if d.head == '%' then throw .malformed
          let (r, d) ← uriText fuel d
          return (s.toList ++ r, d)
        | .error _ => .error .malformed
    else if isUriChar c.head then do
      let (r, d) ← uriText fuel c.next
      return (c.head :: r, d)
    else .ok ([], c)

def uriAt (c : Cursor) : Except Error (String × Cursor) := do
  match ← uriText (c.size + 1) c with
  | ([], _) => throw .malformed
  | (cs, c) => return (String.ofList cs, c)

/-- The handle of a tag: `!`, or a name between two of them. -/
def handleAt (c : Cursor) : Except Error (String × Cursor) :=
  if c.head != '!' then .error .malformed
  else
    let d := c.next
    if d.head == ' ' then .ok ("!", d)
    else
      let (name, e) := nameAt d
      if e.head == '!' then .ok ("!" ++ name ++ "!", e.next) else .error .malformed

/-- A tag: verbatim between angle brackets, a handle with a suffix, or the lone sign. -/
def tagAt (c : Cursor) : Except Error (Token × Cursor) := do
  let ahead := c.peek 1
  let (t, d) ←
    if ahead == '<' then do
      let (suffix, d) ← uriAt (c.advance 2)
      if d.head != '>' then throw .malformed
      pure (Token.tag none suffix, d.next)
    else if isBlankOrEnd ahead then pure (Token.tag none "!", c.next)
    else do
      let marked := (c.rest.drop 1).takeWhile fun a => !isSpaceOrEnd a
      let (handle, d) ← if marked.contains '!' then handleAt c else pure ("!", c.next)
      let (suffix, d) ← uriAt d
      pure (Token.tag (some handle) suffix, d)
  if !isSpaceOrEnd d.head then throw .malformed
  return (t, d)

/-- The name of an anchor or an alias, behind its sign. -/
def anchorAt (c : Cursor) : Except Error (String × Cursor) :=
  match nameAt c with
  | ("", _) => .error .malformed
  | (name, d) =>
    if isBlankOrEnd d.head || "?:,]\x7d%@\x60".toList.contains d.head then .ok (name, d)
    else .error .malformed

/-- A directive, behind its sign. -/
def directiveAt (c : Cursor) : Except Error (Token × Cursor) := do
  let (name, c) := nameAt c
  if name.isEmpty || !isSpaceOrEnd c.head then throw .malformed
  let spaces (c : Cursor) : Cursor := c.dropWhile (· == ' ')
  let (t, c) ←
    if name = "YAML" then do
      let (major, c) ← numberAt (spaces c)
      if c.head != '.' then throw .malformed
      let (minor, c) ← numberAt c.next
      if !isSpaceOrEnd c.head then throw .malformed
      pure (Token.version major minor, c)
    else if name = "TAG" then do
      let (handle, c) ← handleAt (spaces c)
      if c.head != ' ' then throw .malformed
      let (lead, c) ← uriAt (spaces c)
      if !isSpaceOrEnd c.head then throw .malformed
      pure (Token.tagDirective handle lead, c)
    else pure (Token.otherDirective, c.dropWhile fun a => !isBreakOrEnd a)
  let c := spaces c
  let c := if c.head == '#' then c.dropWhile fun a => !isBreakOrEnd a else c
  if !isBreakOrEnd c.head then throw .malformed
  return (t, c.lineBreak.2)

/-- What follows the opening sign of a flow collection. -/
def openFlow (t : Token) (s : Scanner) : Except Error Scanner := do
  let s ← s.savePending
  let s := s.sign t 1 true
  return { s with pending := none :: s.pending }

def closeFlow (t : Token) (s : Scanner) : Except Error Scanner := do
  if !s.inFlow then throw .malformed
  let s ← s.dropPending
  let s := s.sign t 1 false
  return { s with pending := s.pending.drop 1 }

/-- The `-` of a sequence in block style. -/
def blockEntry (s : Scanner) : Except Error Scanner := do
  if !s.inFlow && !s.mayKey then throw .malformed
  let s := s.openHere .blockSequenceStart
  let s ← s.dropPending
  return s.sign .blockEntry 1 true

/-- The `?` in front of a key. -/
def markedKey (s : Scanner) : Except Error Scanner := do
  if !s.inFlow && !s.mayKey then throw .malformed
  let s := s.openHere .blockMappingStart
  let s ← s.dropPending
  return s.sign .key 1 !s.inFlow

/-- The `:` behind a key; it turns the pending key into one. -/
def valueSign (s : Scanner) : Except Error Scanner := do
  match s.pending with
  | some k :: outer =>
    let s := { s.insert .key k.before with pending := none :: outer }
    let s := s.openAt k.column .blockMappingStart k.before
    return s.sign .value 1 false
  | _ =>
    if !s.inFlow && !s.mayKey then throw .malformed
    let s := s.openHere .blockMappingStart
    let s ← s.dropPending
    return s.sign .value 1 !s.inFlow

/-- An alias, an anchor, a tag or a flow scalar: it may be a key, and none follows it directly. -/
def atom (read : Cursor → Except Error (Token × Cursor)) (s : Scanner) : Except Error Scanner := do
  let s ← s.savePending
  let (t, c) ← read s.cursor
  return { s.push t with cursor := c, mayKey := false }

/-- A directive or a document marker: all block collections end in front of it. -/
def atMargin (read : Cursor → Except Error (Token × Cursor)) (s : Scanner) :
    Except Error Scanner := do
  let s ← (s.closeTo (-1)).dropPending
  let (t, c) ← read s.cursor
  return { s.push t with cursor := c, mayKey := false }

def block (fold : Bool) (s : Scanner) : Except Error Scanner := do
  let s ← s.dropPending
  let (cs, c) ← blockText fold s.indent s.cursor.next
  return { s.push (.scalar (String.ofList cs) false) with cursor := c, mayKey := true }

def plain (s : Scanner) : Except Error Scanner := do
  let s ← s.savePending
  let c := s.cursor
  let (cs, broken, c) := plainText s.inFlow (s.indent + 1) (c.size + 1) [] false c
  return { s.push (.scalar (String.ofList cs) true) with cursor := c, mayKey := broken }

def quoted (double : Bool) : Scanner → Except Error Scanner :=
  atom fun c => do
    let (cs, d) ← quotedText double (c.size + 1) c.next
    return (.scalar (String.ofList cs) false, d)

/-- Whether a plain scalar starts here. -/
def startsPlain (flow : Bool) (c : Cursor) : Bool :=
  let a := c.head
  (!isBlankOrEnd a && !"-?:,[]\x7b\x7d#&*!|>'\"%@\x60".toList.contains a) ||
    (!isBlankOrEnd (c.peek 1) && (a == '-' || (!flow && (a == '?' || a == ':'))))

/-- Reads one more token, and those that it implies. -/
def step (s : Scanner) : Except Error Scanner :=
  let c := s.cursor
  let a := c.head
  let blank := isBlankOrEnd (c.peek 1)
  let margin := c.column == 0
  if a == '%' && margin then s.atMargin fun c => directiveAt c.next
  else if margin && c.isMarker '-' then s.atMargin fun c => .ok (.documentStart, c.advance 3)
  else if margin && c.isMarker '.' then s.atMargin fun c => .ok (.documentEnd, c.advance 3)
  else if a == '[' then s.openFlow .flowSequenceStart
  else if a == '\x7b' then s.openFlow .flowMappingStart
  else if a == ']' then s.closeFlow .flowSequenceEnd
  else if a == '\x7d' then s.closeFlow .flowMappingEnd
  else if a == ',' then do return (← s.dropPending).sign .flowEntry 1 true
  else if a == '-' && blank then s.blockEntry
  else if a == '?' && (s.inFlow || blank) then s.markedKey
  else if a == ':' && (s.inFlow || blank) then s.valueSign
  else if a == '*' then
    s.atom fun c => do
      let (name, d) ← anchorAt c.next
      return (.alias name, d)
  else if a == '&' then
    s.atom fun c => do
      let (name, d) ← anchorAt c.next
      return (.anchor name, d)
  else if a == '!' then s.atom tagAt
  else if a == '|' && !s.inFlow then s.block false
  else if a == '>' && !s.inFlow then s.block true
  else if a == '\'' then s.quoted false
  else if a == '"' then s.quoted true
  else if startsPlain s.inFlow c then s.plain
  else .error .malformed

/-- Reads one more token, or reaches the end of the text. -/
def fetch (s : Scanner) : Except Error Scanner := do
  let s ← (s.skipBlanks (s.cursor.size + 1)).dropStale
  let s := s.closeTo s.cursor.column
  if s.cursor.rest.isEmpty then
    let s ← (s.closeTo (-1)).dropPending
    return { s.push .streamEnd with done := true }
  else s.step

/-- Whether the next token is known: a key token may still be put in front of a token that may be a
key. -/
def isReady (s : Scanner) : Bool :=
  s.done || (!s.tokens.isEmpty && !s.pending.any fun k => k.any fun k => k.before == s.taken)

/-- Reads on until the next token is known. -/
def ready : (fuel : Nat) → Scanner → Except Error Scanner
  | 0, _ => .error .malformed
  | fuel + 1, s => do
    if s.done then return s
    let s ← if s.tokens.isEmpty then pure s else s.dropStale
    if s.isReady then return s
    ready fuel (← s.fetch)

/-- The scanner behind the next token. -/
def drop (s : Scanner) : Scanner := { s with tokens := s.tokens.drop 1, taken := s.taken + 1 }

end Scanner

/-- The characters that a text may hold: half of a pair is none. -/
def isReadable (c : Char) : Bool :=
  let n := c.toNat
  n == 9 || n == 10 || n == 13 || (0x20 ≤ n && n ≤ 0x7E) || n == 0x85 || (0xA0 ≤ n && n ≤ 0xD7FF) ||
    (0xE000 ≤ n && n ≤ 0xFFFD) || (0x10000 ≤ n && !Text.Utf16.isHalf c)

end FlowPipeline.Yaml
