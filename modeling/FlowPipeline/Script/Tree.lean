/-! # Trees of scripts

A tree keeps of a script only what matters to the calls in it: who is called, with what, and inside
which functions, under which `await` and which members. All else are groups of trees in the order of
the text.
-/

namespace FlowPipeline.Script

inductive Tree where
  | identifier (name : String)
  /-- A string literal, with the text between its quotes as it is written. -/
  | literal (text : String)
  /-- A member of an object; private members have no name here. -/
  | member (object : Tree) (name : Option String)
  | call (line : Nat) (callee types : Tree) (arguments : List Tree)
  | await (operand : Tree)
  /-- A function or a method: its parameters and its body. -/
  | function (parts : List Tree)
  | group (parts : List Tree)

namespace Tree

/-- A tree in which nothing is called. -/
def empty : Tree := .group []

mutual

/-- Whether two trees are the same. -/
def decEq : (t u : Tree) → Decidable (t = u)
  | identifier a, u =>
    match u with
    | identifier b => decidable_of_iff (a = b) (by simp)
    | literal _ | member _ _ | call _ _ _ _ | await _ | function _ | group _ => isFalse nofun
  | literal a, u =>
    match u with
    | literal b => decidable_of_iff (a = b) (by simp)
    | identifier _ | member _ _ | call _ _ _ _ | await _ | function _ | group _ => isFalse nofun
  | member o a, u =>
    match u with
    | member p b =>
      have := decEq o p
      decidable_of_iff (o = p ∧ a = b) (by simp)
    | identifier _ | literal _ | call _ _ _ _ | await _ | function _ | group _ => isFalse nofun
  | call l c t as, u =>
    match u with
    | call l' c' t' as' =>
      have := decEq c c'
      have := decEq t t'
      have := decEqAll as as'
      decidable_of_iff (l = l' ∧ c = c' ∧ t = t' ∧ as = as') (by simp)
    | identifier _ | literal _ | member _ _ | await _ | function _ | group _ => isFalse nofun
  | await t, u =>
    match u with
    | await t' =>
      have := decEq t t'
      decidable_of_iff (t = t') (by simp)
    | identifier _ | literal _ | member _ _ | call _ _ _ _ | function _ | group _ => isFalse nofun
  | function ts, u =>
    match u with
    | function us =>
      have := decEqAll ts us
      decidable_of_iff (ts = us) (by simp)
    | identifier _ | literal _ | member _ _ | call _ _ _ _ | await _ | group _ => isFalse nofun
  | group ts, u =>
    match u with
    | group us =>
      have := decEqAll ts us
      decidable_of_iff (ts = us) (by simp)
    | identifier _ | literal _ | member _ _ | call _ _ _ _ | await _ | function _ => isFalse nofun

def decEqAll : (ts us : List Tree) → Decidable (ts = us)
  | [], [] => isTrue rfl
  | [], _ :: _ | _ :: _, [] => isFalse nofun
  | t :: ts, u :: us =>
    have := decEq t u
    have := decEqAll ts us
    decidable_of_iff (t = u ∧ ts = us) (by simp)

end

instance : DecidableEq Tree := decEq

end Tree
end FlowPipeline.Script
