import FlowPipeline.Script.Node
import FlowPipeline.Script.State
import Std.Data.TreeMap

/-! # Stacks

The stacks of all ways in which a script is read are kept as one graph: where ways come together in
the same state at the same place, they share a vertex from there on, with a link down for each of
them.
-/

namespace FlowPipeline.Script

/-- A step down: what was read, and the vertex below it. -/
structure Link where
  below : Nat
  node : Node

structure Vertex where
  state : State
  place : Place
  links : List Link
  /-- The weight of the best way down. -/
  weight : Int

/-- A way down from a vertex, with the parts on it and how many of them are not comments. -/
structure Way where
  vertex : Nat
  parts : List Node
  count : Nat

/-- The vertices by their numbers, which go from 0 on. -/
structure Stack where
  vertices : Std.TreeMap Nat Vertex

namespace Stack

/-- The stack of a script of which nothing is read. -/
def start (p : Place) : Stack := ⟨Std.TreeMap.empty.insert 0 ⟨State.start, p, [], 0⟩⟩

def size (s : Stack) : Nat := s.vertices.size

def vertex (s : Stack) (v : Nat) : Vertex :=
  s.vertices.getD v ⟨State.start, ⟨[], 0, 1⟩, [], 0⟩

def set (s : Stack) (v : Nat) (x : Vertex) : Stack := ⟨s.vertices.insert v x⟩

/-- A new vertex above another one. -/
def push (s : Stack) (below : Nat) (node : Node) (state : State) : Stack × Nat :=
  let x := s.vertex below
  let place := if node.stop.index < x.place.index then x.place else node.stop
  (s.set s.size ⟨state, place, [⟨below, node⟩], x.weight + node.weight⟩, s.size)

/-- Whether two vertices are in the same state at the same place. -/
def agree (s : Stack) (v w : Nat) : Bool :=
  let x := s.vertex v
  let y := s.vertex w
  x.place.index == y.place.index && x.state == y.state

def setLink (links : List Link) (i : Nat) (node : Node) : List Link :=
  links.modify i fun l => { l with node }

/-- What a link is to those that a vertex has. -/
inductive Likeness where
  /-- It goes down to the same vertex as the link of that number, by a part that resembles its
  own. -/
  | same (i : Nat)
  /-- It goes down to a vertex that agrees with the one below that link. -/
  | parallel (l : Link)
  | new

def likeness (s : Stack) (link : Link) : (i : Nat) → List Link → Likeness
  | _, [] => .new
  | i, l :: ls =>
    if l.node.resembles link.node then
      if l.below == link.below then .same i
      else if s.agree l.below link.below then .parallel l
      else likeness s link (i + 1) ls
    else likeness s link (i + 1) ls

/-- The most links that a vertex has. -/
def maxLinks : Nat := 8

/-- Adds a link to a vertex. Of two links to the same vertex the heavier one is kept; links to
vertices that agree become one, and the vertices below them too. -/
def link : (fuel : Nat) → Stack → Nat → Link → Stack
  | 0, s, _, _ => s
  | n + 1, s, v, l =>
    let x := s.vertex v
    let weight := (s.vertex l.below).weight + l.node.weight
    if l.below == v then s
    else
      match s.likeness l 0 x.links with
      | .same i =>
        if ((x.links[i]?.map fun k => k.node.weight).getD 0) < l.node.weight then
          s.set v { x with links := setLink x.links i l.node, weight }
        else s
      | .parallel k =>
        let s := (s.vertex l.below).links.foldl (fun s m => link n s k.below m) s
        let x := s.vertex v
        s.set v { x with weight := max x.weight weight }
      | .new =>
        if maxLinks ≤ x.links.length then s
        else s.set v { x with links := x.links ++ [l], weight := max x.weight weight }

/-- Makes one of two vertices that agree: the first one gets the links of the second. -/
def merge (s : Stack) (v w : Nat) : Stack :=
  (s.vertex w).links.foldl (fun s l => link s.size s v l) s

/-- The most ways down that are followed at once. -/
def maxWays : Nat := 64

/-- Takes each way that is not long enough one step down. -/
def descend (s : Stack) (count : Nat) (ways : List Way) :
    (todo : List Way) → (long kept split : List Way) → List Way × List Way
  | [], long, kept, split => (long.reverse, kept.reverse ++ split)
  | w :: todo, long, kept, split =>
    if w.count == count then descend s count ways todo (w :: long) kept split
    else
      let step (l : Link) : Way :=
        ⟨l.below, l.node :: w.parts, if l.node.isComment then w.count else w.count + 1⟩
      match (s.vertex w.vertex).links with
      | [] => descend s count ways todo long kept split
      | l :: ls =>
        let room := maxWays - (ways.length + split.length)
        descend s count ways todo long (step l :: kept) (split ++ (ls.take room).map step)

/-- The ways down with so many parts on them that are not comments. -/
def waysDown (s : Stack) (count : Nat) : (fuel : Nat) → List Way → List Way
  | 0, _ => []
  | _, [] => []
  | n + 1, ways =>
    let (long, ways) := s.descend count ways ways [] [] []
    long ++ s.waysDown count n ways

/-- The parts on the ways down from a vertex, by the vertices at which the ways end. -/
def pop (s : Stack) (v count : Nat) : List (Nat × List (List Node)) :=
  (s.waysDown count (s.size + 1) [⟨v, [], 0⟩]).foldl (fun groups w =>
    if groups.any fun (u, _) => u == w.vertex then
      groups.map fun (u, parts) => (u, if u == w.vertex then parts ++ [w.parts] else parts)
    else groups ++ [(w.vertex, [w.parts])]) []

/-- Everything on the first way down from a vertex. -/
def allParts (s : Stack) : (fuel : Nat) → (v : Nat) → List Node → List Node
  | 0, _, parts => parts
  | n + 1, v, parts =>
    match (s.vertex v).links with
    | [] => parts
    | l :: _ => s.allParts n l.below (l.node :: parts)

end Stack
end FlowPipeline.Script
