import FlowPipeline.Number.Decimal
import FlowPipeline.Text.Utf16

/-! # JSON

A text is the sequence of its UTF-16 units, as an escape may write a unit that is no text by itself.
The members of an object keep their order. Written JSON is plain ASCII.
-/

namespace FlowPipeline

inductive Json where
  | null
  | bool (b : Bool)
  | int (i : Int)
  | float (x : Binary64)
  | text (units : List UInt16)
  | list (items : List Json)
  | object (members : List (List UInt16 × Json))

namespace Json

/-- A JSON text. -/
def str (s : String) : Json := .text (Text.Utf16.encode s)

/-- The objects' members by names that are texts. -/
def obj (members : List (String × Json)) : Json :=
  .object (members.map fun m => (Text.Utf16.encode m.1, m.2))

/-- The member of an object under a name; the last one counts if there are several. -/
def member? (name : String) : Json → Option Json
  | .object members => (members.reverse.find? fun m => m.1 == Text.Utf16.encode name).map Prod.snd
  | _ => none

/-- The spellings of the numbers that JSON proper lacks. -/
def spelling : Binary64.Spelling := ⟨"Infinity", "NaN"⟩

/-- What stands between the parts of written JSON: behind an item, behind a key, and the depth of
the indentation if every part has a line of its own. -/
structure Layout where
  item : String
  key : String
  indent : Option Nat

/-- One line, with spaces behind the separators. -/
def Layout.line : Layout := ⟨", ", ": ", none⟩

/-- One line without spaces. -/
def Layout.compact : Layout := ⟨",", ":", none⟩

/-- A line for every part. -/
def Layout.indented (depth : Nat) : Layout := ⟨",", ": ", some depth⟩

/-- A unit inside quotes. -/
def escapeUnit (u : UInt16) : List Char :=
  let n := u.toNat
  if n = 34 then ['\\', '"']
  else if n = 92 then ['\\', '\\']
  else if n = 10 then ['\\', 'n']
  else if n = 13 then ['\\', 'r']
  else if n = 9 then ['\\', 't']
  else if n = 12 then ['\\', 'f']
  else if n = 8 then ['\\', 'b']
  else if 32 ≤ n ∧ n < 127 then [Char.ofNat n]
  else
    let ds := Nat.toDigits 16 n
    '\\' :: 'u' :: List.replicate (4 - ds.length) '0' ++ ds

def quote (us : List UInt16) : List Char :=
  '"' :: us.flatMap escapeUnit ++ ['"']

namespace Layout

/-- The break in front of a part at a depth of nesting. -/
def newline (l : Layout) (depth : Nat) : List Char :=
  match l.indent with
  | none => []
  | some n => '\n' :: List.replicate (n * depth) ' '

mutual

def write (l : Layout) (depth : Nat) : Json → List Char
  | .null => "null".toList
  | .bool b => if b then "true".toList else "false".toList
  | .int i => (toString i).toList
  | .float x => (x.render spelling).toList
  | .text us => quote us
  | .list [] => ['[', ']']
  | .list (v :: vs) =>
    '[' :: l.newline (depth + 1) ++ writeItems l (depth + 1) (v :: vs) ++ l.newline depth ++ [']']
  | .object [] => ['\x7b', '\x7d']
  | .object (m :: ms) =>
    '\x7b' :: l.newline (depth + 1) ++ writeMembers l (depth + 1) (m :: ms) ++ l.newline depth ++
      ['\x7d']

def writeItems (l : Layout) (depth : Nat) : List Json → List Char
  | [] => []
  | [v] => write l depth v
  | v :: vs => write l depth v ++ l.item.toList ++ l.newline depth ++ writeItems l depth vs

def writeMembers (l : Layout) (depth : Nat) : List (List UInt16 × Json) → List Char
  | [] => []
  | [(k, v)] => quote k ++ l.key.toList ++ write l depth v
  | (k, v) :: ms =>
    quote k ++ l.key.toList ++ write l depth v ++ l.item.toList ++ l.newline depth ++
      writeMembers l depth ms

end

end Layout

/-- The text of the value in a layout. -/
def render (l : Layout) (j : Json) : String :=
  String.ofList (l.write 0 j)

mutual

/-- The value with the members of every object in the order of their names. -/
def sorted : Json → Json
  | .list items => .list (sortedItems items)
  | .object members => .object ((sortedMembers members).mergeSort fun a b => Text.Utf16.le a.1 b.1)
  | j => j

def sortedItems : List Json → List Json
  | [] => []
  | v :: vs => sorted v :: sortedItems vs

def sortedMembers : List (List UInt16 × Json) → List (List UInt16 × Json)
  | [] => []
  | (k, v) :: ms => (k, sorted v) :: sortedMembers ms

end

end Json
end FlowPipeline
