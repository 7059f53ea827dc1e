import FlowPipeline.Yaml.Tag
import Std.Data.TreeMap

/-! # The nodes of a YAML text

The nodes of a text make a graph: a node that has a name can be part of several others, and of
itself. Nodes are known by their numbers.
-/

namespace FlowPipeline.Yaml

/-- A scalar, a list or a mapping, with the tag of its type and the numbers of its parts. -/
inductive Node where
  | scalar (tag : Tag) (text : String)
  | list (tag : Tag) (items : List Nat)
  | map (tag : Tag) (entries : List (Nat × Nat))
deriving DecidableEq, Repr

namespace Node

def tag : Node → Tag
  | .scalar t _ => t
  | .list t _ => t
  | .map t _ => t

def withTag (t : Tag) : Node → Node
  | .scalar _ text => .scalar t text
  | .list _ items => .list t items
  | .map _ entries => .map t entries

/-- What stands where a node is left out. -/
def empty : Node := .scalar .null ""

end Node

structure Graph where
  nodes : Std.TreeMap Nat Node
  /-- How many numbers are given. -/
  size : Nat
  /-- Whether a node is a part of itself. -/
  isCyclic : Bool

namespace Graph

def nil : Graph := ⟨∅, 0, false⟩

/-- The node of a number. -/
def node (g : Graph) (n : Nat) : Node := g.nodes.getD n .empty

/-- The graph with the node of a number replaced. -/
def set (g : Graph) (n : Nat) (node : Node) : Graph := { g with nodes := g.nodes.insert n node }

/-- The graph with one number more, whose node is not known yet. -/
def grow (g : Graph) : Graph := { g with size := g.size + 1 }

end Graph
end FlowPipeline.Yaml
