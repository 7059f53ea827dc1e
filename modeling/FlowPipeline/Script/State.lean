import FlowPipeline.Script.Item

/-! # States

What is read so far of a script matters only through the items that it may be part of, each with
the terminals that may follow its phrase. They say how each terminal goes on: with the end of
phrases, or within one, or both ways.
-/

namespace FlowPipeline.Script

/-- A phrase with as many of its symbols as are read, which may end. -/
structure Reduction where
  phrase : Phrase
  count : Nat
  strength : Strength
  side : Side
  weight : Int
deriving DecidableEq, Repr

/-- What strengths are compared of: one strength, and the phrases it is of. -/
structure Contender where
  strength : Strength
  phrases : List Phrase

namespace Contender

def stands (c : Contender) : Standing → Bool
  | .rank r => c.strength == .rank r
  | .phrase p => c.phrases.contains p

/-- Which of two comes first in an order, if only one of them has been met before. -/
def compareIn (a b : Contender) : (metA metB : Bool) → List Standing → Ordering
  | _, _, [] => .eq
  | metA, metB, s :: ss =>
    if a.stands s == b.stands s then compareIn a b metA metB ss
    else if a.stands s then
      if metB then .lt else compareIn a b true metB ss
    else if metA then .gt else compareIn a b metA true ss

def compareInOrders (a b : Contender) : List (List Standing) → Ordering
  | [] => .eq
  | o :: os => (compareIn a b false false o).then (compareInOrders a b os)

/-- Which of two is stronger. -/
def compare (a b : Contender) : Ordering :=
  match a.strength, b.strength with
  | .number m, .number n =>
    if m = 0 ∧ n = 0 then compareInOrders a b orders else Ord.compare m n
  | _, _ => compareInOrders a b orders

end Contender

/-- An item, with the terminals that may follow its phrase. -/
structure Entry where
  item : Item
  ahead : Terminals
deriving DecidableEq

/-- How a terminal goes on. -/
structure Decision where
  reductions : List Reduction
  /-- Whether the terminal is read. -/
  shifts : Bool

/-- The items that are read up to one place of a script, in their order. Behind a whole script there
are none. -/
structure State where
  entries : List Entry
deriving DecidableEq

namespace Entry

def reduction (e : Entry) : Reduction :=
  ⟨e.item.phrase, e.item.done, e.item.left.strength, e.item.left.side, e.item.left.weight⟩

/-- The terminals that may come next. -/
def next (e : Entry) : Terminals :=
  let first := e.item.left.rule.first
  if e.item.mayEnd then first.union e.ahead else first

/-- Adds an entry to a list in order. -/
def insert (e : Entry) : List Entry → List Entry
  | [] => [e]
  | f :: fs =>
    match e.item.order f.item with
    | .lt => e :: f :: fs
    | .gt => f :: insert e fs
    | .eq =>
      if e.item = f.item then ⟨f.item, f.ahead.union e.ahead⟩ :: fs else f :: insert e fs

end Entry

namespace State

def start : State :=
  ⟨(forms .script).map fun f => ⟨⟨.script, 0, f⟩, Members.single .finish⟩⟩

def isFinished (s : State) : Bool := s.entries.isEmpty

/-- The terminals that go on in some way. -/
def next (s : State) : Terminals :=
  if s.isFinished then Members.single .finish
  else s.entries.foldl (fun ts e => ts.union e.next) Members.none

/-- The phrases that may come next, with what may follow each. -/
def awaited (s : State) : List (Phrase × Terminals) :=
  s.entries.flatMap fun e => e.item.left.rule.heads.filterMap fun
    | (.phrase p, r) => some (p, if r.mayEnd then r.first.union e.ahead else r.first)
    | (.terminal _, _) => none

/-- The state behind a symbol. -/
def move (s : State) (x : Symbol) : State :=
  let advanced := s.entries.flatMap fun e => e.item.heads.filterMap fun (y, i) =>
    if y = x then some (Entry.mk i e.ahead) else none
  let awaited := s.awaited
  let begun := x.opened.filterMap fun i =>
    let around := awaited.filter fun (p, _) => p.corners.contains i.phrase
    if around.isEmpty then none
    else some (Entry.mk i (around.foldl
      (fun ts (p, after) => ts.union (p.follow i.phrase after)) Members.none))
  ⟨(advanced ++ begun).foldl (fun es e => e.insert es) []⟩

def contender (rs : List Reduction) : Contender :=
  ⟨(rs.getLast?.map Reduction.strength).getD (.number 0), rs.map Reduction.phrase⟩

/-- Adds a reduction to others, if it is as strong as they are; a stronger one stands alone. -/
def keep (rs : List Reduction) (r : Reduction) : List Reduction :=
  if rs.isEmpty then [r]
  else
    match (contender [r]).compare (contender rs) with
    | .gt => [r]
    | .eq => rs ++ [r]
    | .lt => rs

/-- The reductions before a terminal. -/
def reductions (s : State) (t : Terminal) : List Reduction :=
  let ended := s.entries.filter fun e => e.item.mayEnd && e.ahead.contains t
  (ended.map Entry.reduction).eraseDups.foldl keep []

/-- How a terminal goes on that may be read and before which phrases may end. Within a repetition
the phrases end. Else the stronger way is taken, or the one for the side from which the operators
are read, or both. -/
def resolve (s : State) (t : Terminal) (rs : List Reduction) : Decision :=
  let within := s.entries.filter fun e => 0 < e.item.done && e.item.left.rule.first.contains t
  let ended := s.entries.filter fun e => e.item.mayEnd && e.ahead.contains t
  let phrases := ((within ++ ended).map fun e => e.item.phrase).eraseDups
  let orders := within.map fun e =>
    (Contender.mk e.item.left.strength [e.item.phrase]).compare (contender rs)
  let isAll (side : Side) : Bool := rs.all fun r => r.side == side
  let reduced : Decision := ⟨rs, false⟩
  let shifted : Decision := ⟨[], true⟩
  if phrases.length == 1 && phrases.all Phrase.isRepetition then reduced
  else
    match orders.contains .gt, orders.contains .lt with
    | true, true => ⟨rs, true⟩
    | true, false => shifted
    | false, true => reduced
    | false, false =>
      if isAll .left then reduced else if isAll .right then shifted else ⟨rs, true⟩

def decide (s : State) (t : Terminal) : Decision :=
  let rs := s.reductions t
  let shifts := !(s.move (.terminal t)).isFinished
  if shifts && !rs.isEmpty then s.resolve t rs else ⟨rs, shifts⟩

end State
end FlowPipeline.Script
