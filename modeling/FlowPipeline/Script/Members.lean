/-! # Sets over enumerations

The symbols of a grammar are few, so that a set of them is a row of bits.
-/

namespace FlowPipeline.Script

/-- Types whose values are told apart by a number. -/
class Numbered (α : Type) where
  number : α → Nat

/-- A set of numbered values. -/
structure Members (α : Type) where
  bits : Nat
deriving DecidableEq, Ord

namespace Members
variable {α : Type}

def none : Members α := ⟨0⟩

def union (a b : Members α) : Members α := ⟨a.bits ||| b.bits⟩

def isNone (a : Members α) : Bool := a.bits == 0

variable [Numbered α]

def single (a : α) : Members α := ⟨1 <<< Numbered.number a⟩

def contains (s : Members α) (a : α) : Bool := s.bits.testBit (Numbered.number a)

def insert (s : Members α) (a : α) : Members α := s.union (single a)

def ofList (as : List α) : Members α := as.foldl insert none

end Members
end FlowPipeline.Script
