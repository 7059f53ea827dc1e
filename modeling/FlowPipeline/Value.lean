import FlowPipeline.Number.Binary64
import FlowPipeline.Calendar
import FlowPipeline.Number.LongInteger

/-! # Values of a document

A document holds scalars, lists and mappings. Only scalars are keys of a mapping. A list or a
mapping can contain itself; it is then written once, and a reference stands for it inside.
-/

namespace FlowPipeline

/-- A value without parts. -/
inductive Scalar where
  | null
  | bool (b : Bool)
  | int (i : Int)
  | float (x : Binary64)
  | text (s : String)
  | bytes (bs : List UInt8)
  | date (d : Date)
  | moment (m : Moment)
deriving DecidableEq, Repr

/-- A value of a document. Tuples are the pairs of an ordered mapping, sets are mappings without
values. -/
inductive Value where
  | scalar (s : Scalar)
  | list (items : List Value)
  | tuple (items : List Value)
  | set (items : List Scalar)
  | map (entries : List (Scalar × Value))
  /-- A collection that contains itself, with its number. -/
  | cyclic (number : Nat) (whole : Value)
  /-- The list or mapping of a number, around this place. -/
  | again (number : Nat) (isMap : Bool)

/-- The entries of a mapping, in the order of their first appearance. -/
abbrev Mapping := List (Scalar × Value)

namespace Scalar

/-- The form in which equal keys are one: truth values and whole floats are integers, moments with
an offset are instants. -/
def key : Scalar → Scalar
  | .bool b => .int (if b then 1 else 0)
  | .float x =>
    match x.toInt? with
    | some i => .int i
    | none => .float x
  | .moment m =>
    match m.offset with
    | some _ => .moment ⟨⟨0, 0, 0⟩, 0, 0, 0, 0, some m.instant⟩
    | none => .moment m
  | s => s

/-- Whether two scalars are the same key. -/
def same (a b : Scalar) : Bool := decide (a.key = b.key)

/-- Whether a scalar counts as true: all but null, false, zero and what is empty. -/
def truthy : Scalar → Bool
  | .null => false
  | .bool b => b
  | .int i => i != 0
  | .float x => !x.isZero
  | .text s => !s.isEmpty
  | .bytes bs => !bs.isEmpty
  | .date _ => true
  | .moment _ => true

/-- Whether a scalar is an integer that has too many digits to be written. -/
def isLong : Scalar → Bool
  | .int i => LongInteger.isLong i
  | _ => false

end Scalar

namespace Mapping

/-- The value under a text key. -/
def find? (name : String) : Mapping → Option Value
  | [] => none
  | (k, v) :: m => if k = .text name then some v else find? name m

/-- The value under a text key; null if there is none. -/
def get (name : String) (m : Mapping) : Value :=
  (find? name m).getD (.scalar .null)

end Mapping

namespace Value

def null : Value := .scalar .null
def text (s : String) : Value := .scalar (.text s)

/-- Whether a value counts as true. -/
def truthy : Value → Bool
  | .scalar s => s.truthy
  | .list items => !items.isEmpty
  | .tuple items => !items.isEmpty
  | .set items => !items.isEmpty
  | .map entries => !entries.isEmpty
  | .cyclic _ _ => true
  | .again _ _ => true

/-- The first of two values if it counts as true, else the second. -/
def orElse (v w : Value) : Value := if v.truthy then v else w

/-- Whether the value is the truth value `false` itself. -/
def isFalse : Value → Bool
  | .scalar (.bool b) => !b
  | _ => false

mutual

/-- The value with `whole` for the references to a number. -/
def close (number : Nat) (whole : Value) : Value → Value
  | .list items => .list (closeItems number whole items)
  | .tuple items => .tuple (closeItems number whole items)
  | .map entries => .map (closeEntries number whole entries)
  | .cyclic n v => if n = number then .cyclic n v else .cyclic n (close number whole v)
  | .again n isMap => if n = number then whole else .again n isMap
  | v => v

def closeItems (number : Nat) (whole : Value) : List Value → List Value
  | [] => []
  | v :: vs => close number whole v :: closeItems number whole vs

def closeEntries (number : Nat) (whole : Value) : List (Scalar × Value) → List (Scalar × Value)
  | [] => []
  | (k, v) :: es => (k, close number whole v) :: closeEntries number whole es

end

/-- The value with the collections around it for its references, the innermost first. -/
def within (around : List (Nat × Value)) (v : Value) : Value :=
  around.foldl (fun v w => close w.1 w.2 v) v

/-- The entries of a value that is a mapping. -/
def mapping? : Value → Option Mapping
  | .map entries => some entries
  | .cyclic n (.map entries) => some (closeEntries n (.cyclic n (.map entries)) entries)
  | _ => none

/-- The items of a value that is a list or a tuple. -/
def items? : Value → Option (List Value)
  | .list items => some items
  | .tuple items => some items
  | .cyclic n (.list items) => some (closeItems n (.cyclic n (.list items)) items)
  | .cyclic n (.tuple items) => some (closeItems n (.cyclic n (.tuple items)) items)
  | _ => none

mutual

/-- Whether an integer in the value has too many digits to be written. -/
def hasLong : Value → Bool
  | .scalar s => s.isLong
  | .list items => anyLong items
  | .tuple items => anyLong items
  | .set items => items.any Scalar.isLong
  | .map entries => anyLongEntry entries
  | .cyclic _ v => hasLong v
  | .again _ _ => false

def anyLong : List Value → Bool
  | [] => false
  | v :: vs => hasLong v || anyLong vs

def anyLongEntry : List (Scalar × Value) → Bool
  | [] => false
  | (k, v) :: es => k.isLong || hasLong v || anyLongEntry es

end

end Value
end FlowPipeline
