import FlowPipeline.Json
import FlowPipeline.Number.LongInteger
import FlowPipeline.Text.Digit

/-! # Reading JSON

A failure names the place where reading stopped, but for an integer that is too long and for lists
and objects that lie too deep. Numbers may be infinite or undefined.
-/

namespace FlowPipeline.Json

/-- What is wrong with a text that is not JSON. -/
inductive Complaint where
  | value
  | name
  | colon
  | comma
  | extra
  | unterminated
  | control
  | escape
  | unicodeEscape
  | byteOrderMark
  /-- An integer of too many digits. -/
  | long (digits : Nat)
  /-- A list or an object within too many others. -/
  | deep (isObject : Bool)
deriving DecidableEq, Repr

def Complaint.message : Complaint → String
  | .value => "Expecting value"
  | .name => "Expecting property name enclosed in double quotes"
  | .colon => "Expecting ':' delimiter"
  | .comma => "Expecting ',' delimiter"
  | .extra => "Extra data"
  | .unterminated => "Unterminated string starting at"
  | .control => "Invalid control character at"
  | .escape => "Invalid \\escape"
  | .unicodeEscape => "Invalid \\uXXXX escape"
  | .byteOrderMark => "Unexpected UTF-8 BOM (decode using utf-8-sig)"
  | .long digits => LongInteger.message (some digits)
  | .deep isObject =>
    "maximum recursion depth exceeded while decoding a JSON " ++
      (if isObject then "object" else "array") ++ " from a unicode string"

/-- Whether the complaint is about the size of something that is written as it should be. -/
def Complaint.isLimit : Complaint → Bool
  | .long _ | .deep _ => true
  | _ => false

/-- A complaint about the place from which on `left` characters are left. -/
structure Failure where
  complaint : Complaint
  left : Nat
deriving DecidableEq, Repr

/-- The complaint with the line, the column and the offset of its place in the text. -/
def Failure.message (f : Failure) (text : List Char) : String :=
  let offset := text.length - f.left
  let before := text.take offset
  let line := before.count '\n' + 1
  let column := (before.reverse.takeWhile (· != '\n')).length + 1
  f.complaint.message ++ ": line " ++ toString line ++ " column " ++ toString column ++
    " (char " ++ toString offset ++ ")"

def complain {α : Type} (c : Complaint) (cs : List Char) : Except Failure α :=
  .error ⟨c, cs.length⟩

def isSpace (c : Char) : Bool := c == ' ' || c == '\t' || c == '\n' || c == '\r'

def skipSpace (cs : List Char) : List Char := cs.dropWhile isSpace

/-- The unit that a letter after a backslash stands for. -/
def escaped? (c : Char) : Option UInt16 :=
  if c = '"' then some 34
  else if c = '\\' then some 92
  else if c = '/' then some 47
  else if c = 'b' then some 8
  else if c = 'f' then some 12
  else if c = 'n' then some 10
  else if c = 'r' then some 13
  else if c = 't' then some 9
  else none

/-- The unit that four digits write; a character must follow them. -/
def unit? : List Char → Option (UInt16 × List Char)
  | a :: b :: c :: d :: e :: r =>
    match Text.hexDigit? a, Text.hexDigit? b, Text.hexDigit? c, Text.hexDigit? d with
    | some w, some x, some y, some z =>
      some (.ofNat (((w * 16 + x) * 16 + y) * 16 + z), e :: r)
    | _, _, _, _ => none
  | _ => none

/-- A text up to its closing quote; `start` characters were left in front of the opening one. -/
def readText (start : Nat) : (fuel : Nat) → List Char → Except Failure (List UInt16 × List Char)
  | 0, _ => .error ⟨.unterminated, start⟩
  | _, [] => .error ⟨.unterminated, start⟩
  | fuel + 1, c :: cs =>
    let more (us : List UInt16) (r : List Char) : Except Failure (List UInt16 × List Char) := do
      let (rest, r) ← readText start fuel r
      return (us ++ rest, r)
    if c = '"' then .ok ([], cs)
    else if c = '\\' then
      match cs with
      | [] => .error ⟨.unterminated, start⟩
      | e :: r =>
        if e = 'u' then
          match unit? r with
          | some (u, r) => more [u] r
          | none => complain .unicodeEscape cs
        else
          match escaped? e with
          | some u => more [u] r
          | none => complain .escape (c :: cs)
    else if c.toNat < 32 then complain .control (c :: cs)
    else more (Text.Utf16.encodeChar c) cs

/-- The digits of a whole number: none in front of which a zero stands. -/
def wholeDigits (cs : List Char) : List Char :=
  match cs with
  | '0' :: _ => ['0']
  | _ => cs.takeWhile Char.isDigit

/-- An exponent with at least one digit, as it is written. -/
def exponentPart (cs : List Char) : List Char :=
  match cs with
  | e :: r =>
    if e = 'e' ∨ e = 'E' then
      let sign := (r.take 1).takeWhile fun c => c == '+' || c == '-'
      let ds := (r.drop sign.length).takeWhile Char.isDigit
      if ds.isEmpty then [] else e :: sign ++ ds
    else []
  | [] => []

/-- A number: an integer unless it has a fraction or an exponent. -/
def readNumber (cs : List Char) : Except Failure (Json × List Char) :=
  let sign := (cs.take 1).takeWhile (· == '-')
  let r := cs.drop sign.length
  let whole := wholeDigits r
  let r := r.drop whole.length
  let places :=
    match r with
    | '.' :: r => (r.takeWhile Char.isDigit)
    | _ => []
  let fraction := if places.isEmpty then [] else '.' :: places
  let r := r.drop fraction.length
  let exponent := exponentPart r
  let r := r.drop exponent.length
  if whole.isEmpty then complain .value cs
  else if fraction.isEmpty && exponent.isEmpty then
    if LongInteger.limit < whole.length then complain (.long whole.length) cs
    else
      let n : Int := Text.natOfDigits (whole.map fun c => c.toNat - 48)
      .ok (.int (if sign.isEmpty then n else -n), r)
  else
    match Decimal.ofChars? (sign ++ whole ++ fraction ++ exponent) with
    | some d => .ok (.float d.toBinary64, r)
    | none => complain .value cs

/-- The words that are values. -/
def constants : List (String × Json) := [
  ("null", .null), ("true", .bool true), ("false", .bool false), ("NaN", .float .nan),
  ("Infinity", .float (.infinite false)), ("-Infinity", .float (.infinite true))]

def readConstant? (cs : List Char) : Option (Json × List Char) :=
  constants.findSome? fun (word, v) =>
    if word.toList.isPrefixOf cs then some (v, cs.drop word.length) else none

/-- The items of a list, up to its end. -/
def readItems (value : List Char → Except Failure (Json × List Char)) :
    (fuel : Nat) → List Char → Except Failure (List Json × List Char)
  | 0, cs => complain .value cs
  | fuel + 1, cs => do
    let (v, r) ← value cs
    match skipSpace r with
    | ']' :: r => return ([v], r)
    | ',' :: r =>
      let (vs, r) ← readItems value fuel (skipSpace r)
      return (v :: vs, r)
    | r => complain .comma r

/-- The object with one member more; an equal name keeps its place and takes the new value. -/
def insertMember (k : List UInt16) (v : Json) :
    List (List UInt16 × Json) → List (List UInt16 × Json)
  | [] => [(k, v)]
  | (l, w) :: ms => if l = k then (l, v) :: ms else (l, w) :: insertMember k v ms

/-- The members of an object, up to its end, put behind those read before. -/
def readMembers (value : List Char → Except Failure (Json × List Char)) :
    (fuel : Nat) → (read : List (List UInt16 × Json)) → List Char →
    Except Failure (List (List UInt16 × Json) × List Char)
  | 0, _, cs => complain .value cs
  | fuel + 1, read, cs =>
    match cs with
    | '"' :: r => do
      let (k, r) ← readText cs.length (cs.length + 1) r
      match skipSpace r with
      | ':' :: r =>
        let (v, r) ← value (skipSpace r)
        let read := insertMember k v read
        match skipSpace r with
        | '\x7d' :: r => return (read, r)
        | ',' :: r => readMembers value fuel read (skipSpace r)
        | r => complain .comma r
      | r => complain .colon r
    | _ => complain .name cs

/-- How many lists and objects may lie within each other. -/
def deepest : Nat := 970

/-- A value that holds at most `depth` lists and objects within each other. -/
def readValue : (depth : Nat) → List Char → Except Failure (Json × List Char)
  | depth, cs =>
    match cs with
    | '"' :: r => do
      let (us, r) ← readText cs.length (cs.length + 1) r
      return (.text us, r)
    | '\x7b' :: r =>
      match depth, skipSpace r with
      | 0, _ => complain (.deep true) cs
      | _, '\x7d' :: r => .ok (.object [], r)
      | depth + 1, r => do
        let (ms, r) ← readMembers (readValue depth) (r.length + 1) [] r
        return (.object ms, r)
    | '[' :: r =>
      match depth, skipSpace r with
      | 0, _ => complain (.deep false) cs
      | _, ']' :: r => .ok (.list [], r)
      | depth + 1, r => do
        let (vs, r) ← readItems (readValue depth) (r.length + 1) r
        return (.list vs, r)
    | _ =>
      match readConstant? cs with
      | some found => .ok found
      | none => readNumber cs

/-- The value of a text. -/
def read (text : List Char) : Except Failure Json :=
  if text.head? = some '\uFEFF' then complain .byteOrderMark text
  else do
    let (v, r) ← readValue deepest (skipSpace text)
    match skipSpace r with
    | [] => return v
    | r => complain .extra r

end FlowPipeline.Json
