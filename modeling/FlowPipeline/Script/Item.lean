import FlowPipeline.Script.Grammar

/-! # Items

An item is a form of a phrase that is read up to a place in it. A phrase may open with another
phrase, that one again with another, and so on; these are its corners. What may follow a corner is
known from the phrases around it, but where only corners without anything behind them lie between,
it is what may follow the phrase itself.
-/

namespace FlowPipeline.Script

structure Item where
  phrase : Phrase
  /-- How many symbols are read. -/
  done : Nat
  /-- The form, with what is left of its rule. -/
  left : Form
deriving DecidableEq, Repr

namespace Item

def mayEnd (i : Item) : Bool := i.left.rule.mayEnd

/-- The symbols that may come next, each with the item behind it. -/
def heads (i : Item) : List (Symbol × Item) :=
  i.left.rule.heads.map fun (s, r) => (s, ⟨i.phrase, i.done + 1, { i.left with rule := r }⟩)

/-- Items of which less is read come first, and then those of earlier phrases. -/
def order (i j : Item) : Ordering :=
  (compare i.done j.done).then <|
    (compare (Numbered.number i.phrase) (Numbered.number j.phrase)).then <|
      i.left.rule.order j.left.rule

end Item

namespace Phrase

/-- The symbols that a phrase may open with, each with the item behind it. -/
def openings (p : Phrase) : List (Symbol × Item) :=
  (forms p).flatMap fun f => (Item.mk p 0 f).heads

def openingTable : Array (List (Symbol × Item)) := (all.map openings).toArray

/-- The openings as they are kept in the table. -/
def heads (p : Phrase) : List (Symbol × Item) := openingTable.getD (Numbered.number p) []

/-- The phrases that some phrases lead to, together with those that are known already. -/
def reach (next : Phrase → List Phrase) :
    (fuel : Nat) → (todo : List Phrase) → (known : Phrases) → Phrases
  | 0, _, known => known
  | _, [], known => known
  | n + 1, p :: todo, known =>
    let new := (next p).filter fun q => !known.contains q
    reach next n (todo ++ new.eraseDups) (new.foldl Members.insert known)

def closure (next : Phrase → List Phrase) (p : Phrase) : Phrases :=
  reach next all.length [p] (Members.single p)

/-- The phrases that a phrase opens with. -/
def opened (p : Phrase) : List Phrase :=
  p.heads.filterMap fun
    | (.phrase q, _) => some q
    | (.terminal _, _) => none

/-- The phrases of which one alone may be the whole phrase. -/
def wholes (p : Phrase) : List Phrase :=
  p.heads.filterMap fun
    | (.phrase q, i) => if i.mayEnd then some q else none
    | (.terminal _, _) => none

def cornerTable : Array Phrases := (all.map (closure opened)).toArray

/-- The corners of a phrase, the phrase itself among them. -/
def corners (p : Phrase) : Phrases := cornerTable.getD (Numbered.number p) Members.none

def firstTable : Array Terminals :=
  let own := all.map fun q => (q, q.heads.foldl (fun ts (s, _) =>
    match s with
    | .terminal t => ts.insert t
    | .phrase _ => ts) Members.none)
  (all.map fun p => own.foldl
    (fun ts (q, own) => if p.corners.contains q then ts.union own else ts) Members.none).toArray

/-- The terminals that a phrase may begin with. -/
def first (p : Phrase) : Terminals := firstTable.getD (Numbered.number p) Members.none

end Phrase

/-- The terminals that what is left of a rule may begin with. -/
def Rule.first : Rule → Terminals
  | nothing => Members.none
  | one (.terminal t) => Members.single t
  | one (.phrase p) => p.first
  | both a b => if a.mayEnd then a.first.union b.first else a.first
  | either a b => a.first.union b.first

namespace Phrase

/-- The phrases that open with a phrase, each with what may come behind it there. -/
def openers (q : Phrase) : List (Phrase × Terminals) :=
  all.flatMap fun p => p.heads.filterMap fun (s, i) =>
    if s = .phrase q ∧ i.left.rule ≠ .nothing then some (p, i.left.rule.first) else none

def openerTable : Array (List (Phrase × Terminals)) := (all.map openers).toArray

/-- The phrases that may be a phrase and nothing else, through any number of phrases. -/
def wholeTable : Array (List Phrase) :=
  let reached := all.map fun p => (p, closure wholes p)
  (all.map fun q => (reached.filter fun (_, ps) => ps.contains q).map (·.1)).toArray

/-- What may follow a corner of a phrase within that phrase. -/
def followed (p corner : Phrase) : Terminals :=
  let around := (wholeTable.getD (Numbered.number corner) []).filter p.corners.contains
  (around.flatMap fun q =>
    (openerTable.getD (Numbered.number q) []).filter fun (r, _) => p.corners.contains r).foldl
      (fun ts (_, first) => ts.union first) Members.none

def followTable : Array (Array Terminals) :=
  (all.map fun p => (all.map fun q =>
    if p.corners.contains q then p.followed q else Members.none).toArray).toArray

/-- What may follow a corner of a phrase, if the given terminals may follow the phrase. -/
def follow (p corner : Phrase) (after : Terminals) : Terminals :=
  let row := followTable.getD (Numbered.number p) #[]
  let inside := row.getD (Numbered.number corner) Members.none
  if (wholeTable.getD (Numbered.number corner) []).contains p then inside.union after else inside

end Phrase

namespace Symbol

def openedTable : Array (List Item) :=
  let openings := Phrase.all.flatMap Phrase.heads
  let numbers := List.range (256 + Phrase.all.length)
  (numbers.map fun n => openings.filterMap fun (s, i) =>
    if s.number == n then some i else none).toArray

/-- The items of which only the symbol is read. -/
def opened (s : Symbol) : List Item := openedTable.getD s.number []

end Symbol
end FlowPipeline.Script
