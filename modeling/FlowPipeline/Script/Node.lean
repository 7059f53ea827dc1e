import FlowPipeline.Script.Place
import FlowPipeline.Script.Rule
import FlowPipeline.Script.Tree

/-! # Readings

A reading of a part of a script by the grammar: a token, or a phrase with its parts. Where there are
two of the same part, the weights decide, and then the order of the symbols.
-/

namespace FlowPipeline.Script

inductive Node where
  | leaf (terminal : Terminal) (start stop : Place)
  | branch (phrase : Phrase) (weight : Int) (start stop : Place) (parts : List Node)

namespace Node

def symbol : Node → Symbol
  | leaf t _ _ => .terminal t
  | branch p _ _ _ _ => .phrase p

def start : Node → Place
  | leaf _ p _ => p
  | branch _ _ p _ _ => p

def stop : Node → Place
  | leaf _ _ p => p
  | branch _ _ _ p _ => p

def weight : Node → Int
  | leaf _ _ _ => 0
  | branch _ w _ _ _ => w

def size : Node → Nat
  | leaf _ _ _ => 0
  | branch _ _ _ _ parts => parts.length

def isComment : Node → Bool
  | leaf t _ _ => t.isComment
  | branch _ _ _ _ _ => false

/-- The reading of a phrase behind a place, from its parts. -/
def ofParts (p : Phrase) (weight : Int) (behind : Place) (parts : List Node) : Node :=
  let total := parts.foldl (fun w n => w + n.weight) weight
  match parts.head?, parts.getLast? with
  | some a, some b => branch p total a.start b.stop parts
  | _, _ => branch p total behind behind parts

/-- Whether two readings cannot be told apart from outside. -/
def resembles (a b : Node) : Bool :=
  a.symbol == b.symbol && a.start.index == b.start.index && a.stop.index == b.stop.index &&
    a.size == b.size

mutual

/-- The order of readings: by their symbols, the numbers of their parts and their parts. -/
def order : Node → Node → Ordering
  | leaf s _ _, leaf t _ _ => compare (Symbol.terminal s).number (Symbol.terminal t).number
  | leaf _ _ _, branch _ _ _ _ _ => .lt
  | branch _ _ _ _ _, leaf _ _ _ => .gt
  | branch p _ _ _ ps, branch q _ _ _ qs =>
    (compare (Symbol.phrase p).number (Symbol.phrase q).number).then <|
      (compare ps.length qs.length).then (orderParts ps qs)

def orderParts : List Node → List Node → Ordering
  | [], _ => .eq
  | _, [] => .eq
  | a :: as, b :: bs => (order a b).then (orderParts as bs)

end

/-- Whether a reading is better than another one of the same part. -/
def isBetter (a b : Node) : Bool :=
  b.weight < a.weight || (a.weight == b.weight && b.order a == .gt)

/-- The text that is read. -/
def text (start stop : Place) : String := String.ofList (start.upTo stop)

/-- What a phrase is, from the trees of its parts. -/
def shape (p : Phrase) (start stop : Place) (parts : List Tree) : Tree :=
  match p, parts with
  | .text, _ => .literal (String.ofList ((start.upTo stop).drop 1).dropLast)
  | .member, object :: rest | .decoratorMember, object :: rest | .queryMember, object :: rest
  | .importMember, object :: rest =>
    match rest.getLast? with
    | some (.identifier name) => .member object (some name)
    | _ => .member object none
  | .call, callee :: rest | .decoratorCall, callee :: rest | .queryCall, callee :: rest
  | .importCall, callee :: rest =>
    match rest.getLast? with
    | some (.group args) => .call start.line callee (.group rest.dropLast) args
    | _ => .group parts
  | .awaitExpression, _ => .await (parts.getLast?.getD .empty)
  | .functionExpression, _ | .functionDeclaration, _ | .generatorExpression, _
  | .generatorDeclaration, _ | .arrowFunction, _ | .method, _ => .function parts
  | _, _ => .group parts

/-- Whether a phrase is only another name for what it is made of. -/
def isTransparent : Phrase → Bool
  | .expression | .primary | .importTerm | .optionalMark => true
  | p => p.isRepetition

/-- Whether a terminal is a sign of the grammar or nothing but a comment. -/
def isSilent (t : Terminal) : Bool :=
  t = .comment || Numbered.number Terminal.star ≤ Numbered.number t

mutual

/-- The trees of a reading, among those of the parts around it. -/
def trees : Node → List Tree
  | leaf t start stop =>
    if t = .name then [.identifier (text start stop)]
    else if isSilent t then []
    else [.empty]
  | branch p _ start stop parts =>
    if isTransparent p then allTrees parts else [shape p start stop (allTrees parts)]

def allTrees : List Node → List Tree
  | [] => []
  | n :: ns => trees n ++ allTrees ns

end

/-- The tree of a whole script. -/
def tree (n : Node) : Tree := .group n.trees

end Node
end FlowPipeline.Script
