import FlowPipeline.Yaml.Construction
import FlowPipeline.Yaml.Reading

/-! # The value of a YAML text -/

namespace FlowPipeline.Yaml

namespace Content

/-- The numbers of the parts. -/
def parts : Content → List Nat
  | .scalar _ => []
  | .list items => items
  | .pairs items => items.flatMap fun (k, v) => [k, v]
  | .set _ => []
  | .map entries => entries.map Prod.snd

def isMap : Content → Bool
  | .map _ => true
  | _ => false

/-- The numbers that are reached from those in `open`, by one step or more. -/
def reached (contents : Std.TreeMap Nat Content) : (fuel : Nat) → (ahead found : List Nat) →
    List Nat
  | 0, _, found => found
  | _, [], found => found
  | fuel + 1, n :: ahead, found =>
    let parts := ((contents.get? n).map parts).getD []
    let new := (parts.filter fun m => !found.contains m).eraseDups
    reached contents fuel (new ++ ahead) (new ++ found)

/-- Whether a node is a part of itself. -/
def isWithinItself (contents : Std.TreeMap Nat Content) (n : Nat) : Bool :=
  (reached contents (contents.size + 1) [n] []).contains n

/-- The pairs of the list of a number, each with a number of its own if the list contains itself. -/
def tuples (size n : Nat) (isCyclic : Bool) (pairs : List (Value × Value)) : List Value :=
  pairs.mapIdx fun i (k, v) =>
    if isCyclic then .cyclic (n + size * (i + 1)) (.tuple [k, v]) else .tuple [k, v]

/-- Work that keeps the values of the nodes that are known, so that a node which is part of many
others is looked at once. -/
abbrev Valuing := StateM (Std.TreeMap Nat Value)

/-- The value of a node; the nodes of the given numbers are around it, no more than `depth` of them
are yet to be entered. The value of a node that is no part of itself is the same everywhere, so that
it is kept. -/
def value (size : Nat) (contents : Std.TreeMap Nat Content) (isCyclic : Nat → Bool) :
    (depth : Nat) → (around : List Nat) → Nat → Valuing Value
  | 0, _, _ => return .null
  | depth + 1, around, n => do
    match (← get).get? n, contents.get? n with
    | some v, _ => return v
    | none, none => return .null
    | none, some c =>
      if isCyclic n && around.contains n then return .again n c.isMap
      let part := value size contents isCyclic depth (n :: around)
      let v ←
        match c with
        | .scalar k => pure (.scalar k.scalar)
        | .list items => .list <$> items.mapM part
        | .pairs items => do
          let pairs ← items.mapM fun (k, m) => do return (← part k, ← part m)
          pure (.list (tuples size n (isCyclic n) pairs))
        | .set items => pure (.set items)
        | .map entries => .map <$> entries.mapM fun (k, m) => do return (k, ← part m)
      if isCyclic n then return .cyclic n v
      modify fun known => known.insert n v
      return v

end Content

/-- The value of a text; null if it holds no document. -/
def parse (text : String) : Except Error Value := do
  match ← nodes text.toList with
  | none => return .null
  | some (g, root) =>
    let cs ← contents g root
    let isCyclic (n : Nat) : Bool := g.isCyclic && Content.isWithinItself cs n
    return ((Content.value g.size cs isCyclic (cs.size + 1) [] root).run ∅).1

end FlowPipeline.Yaml
