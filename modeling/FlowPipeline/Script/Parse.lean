import FlowPipeline.Script.Scanner
import FlowPipeline.Script.Stack

/-! # Parsing scripts

A script is read in all ways that the grammar leaves open, each as long as it goes on. Where two of
them meet they become one. Of the readings of the whole script the best one counts; if there is
none, the furthest token at which a way has ended is in error.
-/

namespace FlowPipeline.Script

inductive Progress where
  | going | stuck | finished
deriving DecidableEq

/-- One of the ways in which a script is read. -/
structure Head where
  vertex : Nat
  progress : Progress
deriving DecidableEq

/-- The furthest token that does not go on, and the vertex at which it does not. -/
structure Failure where
  token : Token
  vertex : Nat

structure Parse where
  stack : Stack
  heads : List Head
  tree : Option Node
  failure : Option Failure
  /-- How far the script is read. -/
  reached : Nat

namespace Parse

def start (p : Place) : Parse := ⟨Stack.start p, [⟨0, .going⟩], none, none, 0⟩

/-- As many heads are kept from one token to the next. -/
def maxHeads : Nat := 6

/-- As many heads there may be in between, besides the first. -/
def maxNewHeads : Nat := 10

def vertexOf (s : Parse) (i : Nat) : Nat := (s.heads[i]?.map Head.vertex).getD 0

def state (s : Parse) (i : Nat) : State := (s.stack.vertex (s.vertexOf i)).state

def isGoing (s : Parse) (i : Nat) : Bool := (s.heads[i]?.map Head.progress) == some .going

def setProgress (s : Parse) (i : Nat) (p : Progress) : Parse :=
  { s with heads := s.heads.modify i fun h => { h with progress := p } }

def erase (s : Parse) (i : Nat) : Parse := { s with heads := s.heads.eraseIdx i }

/-- Puts a part on the stack of a head. -/
def push (s : Parse) (i : Nat) (node : Node) (state : State) : Parse :=
  let (stack, v) := s.stack.push (s.vertexOf i) node state
  { s with stack, heads := s.heads.set i ⟨v, .going⟩ }

/-- Makes the later of two heads part of the earlier one, if they go on alike. -/
def merge? (s : Parse) (i j : Nat) : Option Parse :=
  let (v, w) := (s.vertexOf i, s.vertexOf j)
  if s.isGoing i && s.isGoing j && s.stack.agree v w then
    some ({ s with stack := s.stack.merge v w }.erase j)
  else none

/-- Makes a head part of the first head before it, but for one, that goes on alike. -/
def mergeInto (s : Parse) (but j : Nat) : Parse :=
  ((List.range j).findSome? fun i => if i == but then none else s.merge? i j).getD s

/-- Parts without the comments at their end, and these comments. -/
def splitComments (parts : List Node) : List Node × List Node :=
  let comments := (parts.reverse.takeWhile Node.isComment).reverse
  (parts.take (parts.length - comments.length), comments)

/-- The phrase that some parts are, and the comments behind it. -/
def phraseOf (r : Reduction) (behind : Place) (parts : List Node) : Node × List Node :=
  let (own, comments) := splitComments parts
  (Node.ofParts r.phrase r.weight behind own, comments)

/-- The best phrase of the ways that end at the same vertex. -/
def bestOf (r : Reduction) (behind : Place) : List (List Node) → Option (Node × List Node)
  | [] => none
  | parts :: more => some <| more.foldl (fun best parts =>
      let other := phraseOf r behind parts
      if other.1.isBetter best.1 then other else best) (phraseOf r behind parts)

/-- Ends a phrase at a head: a new head stands behind it for each way down. -/
def reduce (s : Parse) (i : Nat) (r : Reduction) : Parse :=
  (s.stack.pop (s.vertexOf i) r.count).foldl (fun s (v, ways) =>
    let j := s.heads.length
    let x := s.stack.vertex v
    match bestOf r x.place ways with
    | none => s
    | some (node, comments) =>
      if maxNewHeads < j then s
      else
        let state := x.state.move (.phrase r.phrase)
        let s : Parse := { s with heads := s.heads ++ [Head.mk v .going] }
        let s := s.push j node state
        (comments.foldl (fun s c => s.push j c state) s).mergeInto i j) s

/-- Ends phrases at a head. The last new head is told. -/
def reduceAll (s : Parse) (i : Nat) (rs : List Reduction) : Parse × Option Nat :=
  rs.foldl (fun (s, last) r =>
    let j := s.heads.length
    let s := s.reduce i r
    (s, if j < s.heads.length then some j else last)) (s, none)

/-- Stops a head at a token that does not go on. -/
def fail (s : Parse) (i : Nat) (token : Token) : Parse :=
  let isFurthest : Bool :=
    match s.failure with
    | some f => f.token.start.index < token.start.index
    | none => true
  let failure := if isFurthest then some ⟨token, s.vertexOf i⟩ else s.failure
  { s.setProgress i .stuck with failure }

/-- Ends the script at a head. -/
def finish (s : Parse) (i : Nat) : Parse :=
  let read :=
    match s.stack.allParts s.stack.size (s.vertexOf i) [] with
    | [n] => n
    | parts => Node.ofParts .script 0 (s.stack.vertex 0).place parts
  let isBest : Bool :=
    match s.tree with
    | some n => read.isBetter n
    | none => true
  { s.setProgress i .finished with tree := if isBest then some read else s.tree }

/-- Goes on with a token at a head. Before the token is read phrases may end; each way to do so is a
new head, and the last of them takes the place of this one if the token cannot be read here. -/
def read (token : Token) : (fuel : Nat) → (t : Terminal) → Parse → (i : Nat) → Parse
  | 0, _, s, i => s.fail i token
  | n + 1, t, s, i =>
    let state := s.state i
    let leaf := Node.leaf t token.start token.stop
    if t.isComment then s.push i leaf state
    else if state.isFinished && t = .finish then s.finish i
    else
      let decision := state.decide t
      let (s, last) := s.reduceAll i decision.reductions
      if decision.shifts then s.push i leaf (state.move (.terminal t))
      else
        match last with
        | some j =>
          let heads := (s.heads[j]?.map (s.heads.set i)).getD s.heads
          read token n t ({ s with heads }.erase j) i
        | none =>
          if token.isWord && t ≠ .name && state.next.contains .name then read token n .name s i
          else s.fail i token

/-- As many steps it takes at most to read a token. -/
def readFuel (s : Parse) : Nat := 16 * (s.stack.size + 16)

/-- Goes on with the next token at a head. -/
def advance (s : Parse) (i : Nat) : Parse :=
  let x := s.stack.vertex (s.vertexOf i)
  let token := Scanner.token x.state.next x.place
  match token.terminal with
  | some t => s.read token s.readFuel t i
  | none => s.fail i (Scanner.token (.ofList Terminal.contextFree) x.place)

/-- Removes the heads that have ended or do worse than others, and makes one of those that go on
alike. Heavier heads come first. -/
def condense : (fuel : Nat) → (i j : Nat) → Parse → Parse
  | 0, _, _, s => s
  | n + 1, i, j, s =>
    if s.heads.length ≤ i then s
    else if (s.heads[i]?.map Head.progress) == some .finished then condense n i 0 (s.erase i)
    else if i ≤ j then condense n (i + 1) 0 s
    else if s.isGoing j && !s.isGoing i then condense n i 0 (s.erase i)
    else if s.isGoing i && !s.isGoing j then condense n (i - 1) j (s.erase j)
    else
      match s.merge? j i with
      | some s => condense n i 0 s
      | none =>
        let weight (i : Nat) : Int := (s.stack.vertex (s.vertexOf i)).weight
        match s.heads[i]?, s.heads[j]? with
        | some a, some b =>
          let heads := if weight j < weight i then (s.heads.set i b).set j a else s.heads
          condense n i (j + 1) { s with heads }
        | _, _ => s

/-- Goes on at all heads from one on, and then again from the first one on. -/
def run : (fuel : Nat) → (i : Nat) → Parse → Parse
  | 0, _, s => s
  | n + 1, i, s =>
    if i < s.heads.length then
      if s.isGoing i then
        let s := s.advance i
        let index := (s.stack.vertex (s.vertexOf i)).place.index
        if s.reached < index || (0 < i && s.reached == index) then
          run n (i + 1) { s with reached := index }
        else run n i s
      else run n (i + 1) s
    else
      let count := s.heads.length + 1
      let s := condense (4 * count * count) 0 0 s
      let heads := (s.heads.take maxHeads).filter fun h => h.progress == .going
      if heads.isEmpty then s else run n 0 { s with heads }

/-- As many steps it takes at most to read a script. -/
def runFuel (source : String) : Nat := 64 * (source.length + 4)

/-! ## Which line is in error -/

/-- Ends phrases at all heads from one on, whatever comes next. -/
def endPhrases : (fuel : Nat) → (i : Nat) → Parse → Parse
  | 0, _, s => s
  | n + 1, i, s =>
    if s.heads.length ≤ i then s
    else
      let state := s.state i
      let ts := Terminal.all.filter state.next.contains
      let rs := (ts.flatMap fun t => (state.decide t).reductions).eraseDups
      endPhrases n (i + 1) (s.reduceAll i rs).1

/-- Reads a terminal that is missing at a head, and then the token: behind the terminal a phrase
must end before the token. -/
def readMissing? (s : Parse) (token : Token) (t : Terminal) (i : Nat) (missing : Terminal) :
    Option Parse :=
  let x := s.stack.vertex (s.vertexOf i)
  let state := x.state.move (.terminal missing)
  if state.isFinished || (state.reductions t).isEmpty then none
  else
    let s := { s with heads := [⟨s.vertexOf i, .going⟩] }
    let s := s.push 0 (Node.leaf missing x.place x.place) state
    let s := s.read token s.readFuel t 0
    if s.heads.any fun h => h.progress == .going then some s else none

/-- The script as it is read on if the first terminal that may be missing before a token is
added. -/
def withMissing? (s : Parse) (f : Failure) : Option Parse := do
  let t ← f.token.terminal
  let s := endPhrases maxNewHeads 0 { s with heads := [⟨f.vertex, .going⟩] }
  (List.range s.heads.length).findSome? fun i =>
    Terminal.all.findSome? (s.readMissing? f.token t i)

/-- The script as it is read on if a token is left out. -/
def without (s : Parse) (f : Failure) : Parse :=
  let v := s.stack.size
  let x := s.stack.vertex f.vertex
  { s with stack := s.stack.set v { x with place := f.token.stop }, heads := [⟨v, .going⟩] }

/-- Whether the whole script can be read from here on. -/
def succeeds (fuel : Nat) (s : Parse) : Bool := (run fuel 0 s).tree.isSome

/-- Whether a text or a regular expression is being read. -/
def isWithinText (state : State) : Bool :=
  [Terminal.singleText, .doubleText, .regexBody, .regexEnd].any state.next.contains

/-- The line of a failure. It is that of the token, unless something is missing before it: at the
end of the script, in a text that is not closed, or where one more token mends the script and one
less does not. -/
def errorLine (fuel : Nat) (s : Parse) (f : Failure) : Nat :=
  let x := s.stack.vertex f.vertex
  let isMissing : Bool :=
    f.token.terminal = some .finish || isWithinText x.state ||
      (x.place.line != f.token.start.line && (s.withMissing? f).any (succeeds fuel) &&
        !succeeds fuel (s.without f))
  if isMissing then x.place.line else f.token.start.line

end Parse

/-- The tree of a script, or the line that is in error. -/
def parse (source : String) : Except Nat Tree :=
  let fuel := Parse.runFuel source
  let s := (Parse.start (Place.start source)).run fuel 0
  match s.tree with
  | some n => .ok n.tree
  | none => .error ((s.failure.map (s.errorLine fuel)).getD 1)

end FlowPipeline.Script
