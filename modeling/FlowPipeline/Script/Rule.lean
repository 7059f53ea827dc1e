import FlowPipeline.Script.Phrase
import FlowPipeline.Script.Terminal

/-! # Rules

A rule says which symbols may follow each other. What is left of a rule behind a symbol is again a
rule, so that a place in a rule is the rule of what may still come.
-/

namespace FlowPipeline.Script

/-- What rules are made of. -/
inductive Symbol where
  | terminal (t : Terminal)
  | phrase (p : Phrase)
deriving DecidableEq, Repr

namespace Symbol

/-- Terminals come before phrases. -/
def number : Symbol → Nat
  | terminal t => Numbered.number t
  | phrase p => 256 + Numbered.number p

end Symbol

inductive Rule where
  | nothing
  | one (s : Symbol)
  | both (first second : Rule)
  | either (first second : Rule)
deriving DecidableEq, Repr

namespace Rule

instance : Coe Terminal Rule := ⟨fun t => one (.terminal t)⟩
instance : Coe Phrase Rule := ⟨fun p => one (.phrase p)⟩

/-- One rule and then another. Equal rows of rules are equal rules, however they are put
together. -/
def andThen : Rule → Rule → Rule
  | nothing, r => r
  | both a b, r => both a (b.andThen r)
  | a, r => if r = nothing then a else both a r

def seq (rs : List Rule) : Rule := rs.foldr andThen nothing

def oneOf : List Rule → Rule
  | [] => nothing
  | [r] => r
  | r :: rs => either r (oneOf rs)

def optional (r : Rule) : Rule := either r nothing

/-- Whether nothing need come. -/
def mayEnd : Rule → Bool
  | nothing => true
  | one _ => false
  | both a b => a.mayEnd && b.mayEnd
  | either a b => a.mayEnd || b.mayEnd

/-- The symbols that may come first, each with what is left of the rule behind it. -/
def heads : Rule → List (Symbol × Rule)
  | nothing => []
  | one s => [(s, nothing)]
  | both a b =>
    (a.heads.map fun (s, r) => (s, r.andThen b)) ++ (if a.mayEnd then b.heads else [])
  | either a b => a.heads ++ b.heads

/-- An order of rules. Which one it is does not matter, only that it tells rules apart. -/
def order : Rule → Rule → Ordering
  | nothing, nothing => .eq
  | nothing, _ => .lt
  | _, nothing => .gt
  | one s, one t => compare s.number t.number
  | one _, _ => .lt
  | _, one _ => .gt
  | both a b, both c d => (a.order c).then (b.order d)
  | both _ _, _ => .lt
  | _, both _ _ => .gt
  | either a b, either c d => (a.order c).then (b.order d)

end Rule

/-- The operators and the like, as they bind. -/
inductive Rank where
  | member | templateCall | call | unaryVoid | power | times | plus | shift | compare | relation
  | equality | bitAnd | bitXor | bitOr | and | or | ternary | assign | construction | declaration
  | literal | object | instantiation | unary | binary | extension
deriving DecidableEq, Repr

/-- How strongly a form of a phrase binds what is in it. -/
inductive Strength where
  /-- By a number; most forms have 0. -/
  | number (n : Int)
  | rank (r : Rank)
deriving DecidableEq, Repr

/-- The side from which operators of one strength are read. -/
inductive Side where
  | left | right | neither
deriving DecidableEq, Repr

/-- One of the forms that a phrase may have. -/
structure Form where
  rule : Rule
  strength : Strength
  side : Side
  /-- How much the form adds to the weight of a reading. -/
  weight : Int
deriving DecidableEq, Repr

namespace Form

def plain (r : Rule) : List Form := [⟨r, .number 0, .neither, 0⟩]
def ranked (rank : Rank) (r : Rule) : List Form := [⟨r, .rank rank, .neither, 0⟩]
def left (rank : Rank) (r : Rule) : List Form := [⟨r, .rank rank, .left, 0⟩]
def right (rank : Rank) (r : Rule) : List Form := [⟨r, .rank rank, .right, 0⟩]
def leftward (r : Rule) : List Form := [⟨r, .number 0, .left, 0⟩]
def rightward (r : Rule) : List Form := [⟨r, .number 0, .right, 0⟩]
def numbered (n : Int) (r : Rule) : List Form := [⟨r, .number n, .neither, 0⟩]
def leftNumbered (n : Int) (r : Rule) : List Form := [⟨r, .number n, .left, 0⟩]
def weighted (weight : Int) (r : Rule) : List Form := [⟨r, .number 0, .neither, weight⟩]

/-- The form of a repetition. -/
def repeated (p : Phrase) (r : Rule) : List Form := plain (.oneOf [.seq [p, p], r])

end Form
end FlowPipeline.Script
