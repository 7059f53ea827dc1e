import FlowPipeline.Yaml.Graph
import FlowPipeline.Yaml.ScalarValue

/-! # What the nodes of a YAML text stand for

Scalars get their values where they are met, collections get their parts later: those of one depth
in order, then those that they contain. So of two faults the one that lies less deep is found
first. The entries that a mapping merges come before its own, so that its own values win; of
several merged mappings the first wins.
-/

namespace FlowPipeline.Yaml

/-- A scalar as the key of a mapping. An undefined number that is written as a float of its own
equals no key but that of the same node. -/
structure Key where
  scalar : Scalar
  own : Option Nat
deriving DecidableEq, Repr

/-- Whether two keys are one. -/
def Key.same (a b : Key) : Bool := a.scalar.same b.scalar && a.own == b.own

/-- What a node stands for, with the numbers of its parts. -/
inductive Content where
  | scalar (k : Key)
  | list (items : List Nat)
  | pairs (items : List (Nat × Nat))
  | set (items : List Scalar)
  | map (entries : List (Scalar × Nat))
deriving DecidableEq, Repr

/-- The entries with one more, or with the value of an equal key replaced. -/
def insertEntry (k : Key) (n : Nat) : List (Key × Nat) → List (Key × Nat)
  | [] => [(k, n)]
  | (l, m) :: es => if l.same k then (l, n) :: es else (l, m) :: insertEntry k n es

/-- The entries that remain when they are inserted in order: a later one replaces the value and
keeps the place of the first. -/
def distinct (es : List (Key × Nat)) : List (Scalar × Nat) :=
  (es.foldl (fun kept e => insertEntry e.1 e.2 kept) []).map fun (k, n) => (k.scalar, n)

/-- The nodes, what the nodes met so far stand for, and the collections among them whose parts were
not met yet, the last one first. -/
structure Construction where
  graph : Graph
  contents : Std.TreeMap Nat Content
  waiting : List Nat

abbrev Constructing := StateT Construction (Except Error)

namespace Constructing

def fail {α : Type} : Constructing α := throw .malformed

def node (n : Nat) : Constructing Node := do return (← get).graph.node n

def change (n : Nat) (node : Node) : Constructing Unit :=
  modify fun s => { s with graph := s.graph.set n node }

def record (n : Nat) (c : Content) : Constructing Unit :=
  modify fun s => { s with contents := s.contents.insert n c }

/-- Whether nodes of the type are collections, whose parts come later. -/
def isCollection : Tag → Bool
  | .list | .map | .set | .orderedMap | .pairs => true
  | _ => false

/-- The number of the entry that stands for a whole mapping. -/
def standIn? (g : Graph) (entries : List (Nat × Nat)) : Option Nat :=
  (entries.find? fun e => (g.node e.1).tag == .value).map Prod.snd

/-- The text of a node; that of a mapping is the text of the entry that stands for it. -/
def textOf (g : Graph) : (depth : Nat) → Nat → Except Error String
  | 0, _ => .error .endless
  | depth + 1, n =>
    match g.node n with
    | .scalar _ text => .ok text
    | .list _ _ => .error .malformed
    | .map _ entries =>
      match standIn? g entries with
      | some m => textOf g depth m
      | none => .error .malformed

/-- The value of a node that is no collection. -/
def scalarAt (g : Graph) (n : Nat) : Except Error Key := do
  let tag := (g.node n).tag
  if [Tag.merge, Tag.value, Tag.unknown].contains tag then throw .malformed
  let text ← textOf g (g.size + 1) n
  if tag = .timestamp ∧ (g.node n matches .map _ _) then throw .timeOfMapping
  let s ← scalarOf tag text
  return ⟨s, if s = .float .nan ∧ !namesNan text then some n else none⟩

/-- Meets a node: scalars get their values, collections wait for their parts. -/
def meet (n : Nat) : Constructing Unit := do
  let s ← get
  if s.contents.contains n then return
  if isCollection (s.graph.node n).tag then
    set { s with contents := s.contents.insert n (.list []), waiting := n :: s.waiting }
  else record n (.scalar (← scalarAt s.graph n))

/-- Meets the key of an entry, which must be a scalar, and then its value. -/
def meetEntry (e : Nat × Nat) : Constructing (Key × Nat) := do
  meet e.1
  match (← get).contents.get? e.1 with
  | some (.scalar k) =>
    meet e.2
    return (k, e.2)
  | _ => fail

/-- The entries of a node that is a mapping. -/
def entriesOf (n : Nat) : Constructing (List (Nat × Nat)) := do
  match ← node n with
  | .map _ entries => return entries
  | _ => fail

/-- Merges what the entries of a mapping, from `index` on, say to merge; `merged` is put in front of
the others at the end. The sign of a value that stands for the whole is a text as a key. -/
def merge (n : Nat) : (fuel : Nat) → (index : Nat) → (merged : List (Nat × Nat)) →
    Constructing Unit
  | 0, _, _ => fail
  | fuel + 1, index, merged => do
    let t := (← node n).tag
    let entries ← entriesOf n
    match entries[index]? with
    | none => if !merged.isEmpty then change n (.map t (merged ++ entries))
    | some (k, v) =>
      let key ← node k
      if key.tag = .merge then
        change n (.map t (entries.eraseIdx index))
        let sources ←
          match ← node v with
          | .map _ _ => pure [v]
          | .list _ items => pure items
          | .scalar _ _ => fail
        let parts ← sources.mapM fun m => do
          let _ ← entriesOf m
          merge m fuel 0 []
          entriesOf m
        merge n fuel index (merged ++ parts.reverse.flatten)
      else
        if key.tag = .value then change k (key.withTag .text)
        merge n fuel (index + 1) merged

/-- Whether an entry calls for more than to be met. -/
def isSpecial (g : Graph) (e : Nat × Nat) : Bool :=
  [Tag.merge, Tag.value].contains (g.node e.1).tag

/-- How many steps `merge` may take: those of all entries, in each of all entries. -/
def mergeFuel (g : Graph) : Nat :=
  Nat.pow (g.nodes.foldl (fun sum _ node =>
    match node with
    | .map _ entries => sum + entries.length + 2
    | _ => sum) 2) 2

/-- The entries of a mapping, merged ones among them. -/
def mappingOf (n : Nat) : Constructing (List (Key × Nat)) := do
  let entries ← entriesOf n
  let g := (← get).graph
  if entries.any (isSpecial g) then merge n (mergeFuel g) 0 []
  (← entriesOf n).mapM meetEntry

/-- The pair that a mapping of one entry makes. -/
def pairOf (n : Nat) : Constructing (Nat × Nat) := do
  match ← node n with
  | .map _ [(k, v)] =>
    meet k
    meet v
    return (k, v)
  | _ => fail

/-- Meets the parts of a collection. -/
def complete (n : Nat) : Constructing Unit := do
  match (← node n).tag, ← node n with
  | .list, .list _ items =>
    items.forM meet
    record n (.list items)
  | .orderedMap, .list _ items | .pairs, .list _ items =>
    record n (.pairs (← items.mapM pairOf))
  | .map, .map _ _ => record n (.map (distinct (← mappingOf n)))
  | .set, .map _ _ => record n (.set ((distinct (← mappingOf n)).map Prod.fst))
  | _, _ => fail

/-- Completes the collections that wait, then those that are met meanwhile, and so on. -/
def completeAll : (depth : Nat) → Constructing Unit
  | 0 => return ()
  | depth + 1 => do
    let s ← get
    if s.waiting.isEmpty then return ()
    set { s with waiting := [] }
    s.waiting.reverse.forM complete
    completeAll depth

end Constructing

/-- What the nodes stand for that the outermost one contains. -/
def contents (g : Graph) (root : Nat) : Except Error (Std.TreeMap Nat Content) := do
  let work : Constructing Unit := do
    Constructing.meet root
    Constructing.completeAll (g.size + 1)
  let (_, s) ← work.run ⟨g, ∅, []⟩
  return s.contents

end FlowPipeline.Yaml
