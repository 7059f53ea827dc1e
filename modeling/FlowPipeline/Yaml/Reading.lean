import FlowPipeline.Yaml.Graph
import FlowPipeline.Yaml.TokenStream

/-! # Reading the nodes of a YAML text

A node gets its number before its parts are read, so that an alias inside it can stand for it. Each
function looks at no more tokens than it needs, as a fault further on in the text may be of another
kind.
-/

namespace FlowPipeline.Yaml

/-- What is left to read, the nodes that were read, and the numbers of those that have names. -/
structure Reader where
  scanner : Scanner
  graph : Graph
  named : List (String × Nat)

abbrev Reading := StateT Reader (Except Error)

namespace Reading

def fail {α : Type} : Reading α := throw .malformed

/-- The next token. -/
def peek : Reading Token := do
  let r ← get
  let s ← r.scanner.ready (r.scanner.cursor.size + 2)
  set { r with scanner := s }
  return s.tokens.headD .streamEnd

def skip : Reading Unit :=
  modify fun r => { r with scanner := r.scanner.drop }

/-- Skips the token if it comes next, and says whether it did. -/
def accept (t : Token) : Reading Bool := do
  if (← peek) = t then
    skip
    return true
  else return false

def expect (t : Token) : Reading Unit := do
  if !(← accept t) then fail

/-- A number for a node that is to be read. -/
def fresh : Reading Nat := do
  let r ← get
  set { r with graph := r.graph.grow }
  return r.graph.size

/-- Makes the node that of the number. -/
def place (n : Nat) (node : Node) : Reading Unit :=
  modify fun r => { r with graph := r.graph.set n node }

/-- A number for the node. -/
def add (node : Node) : Reading Nat := do
  let n ← fresh
  place n node
  return n

/-- The node of a name. It contains itself if it is still being read. -/
def aliased (name : String) : Reading Nat := do
  let r ← get
  match r.named.lookup name with
  | none => fail
  | some n =>
    if !r.graph.nodes.contains n then set { r with graph := { r.graph with isCyclic := true } }
    return n

/-- A node, or the empty one in front of a token that cannot start one. -/
def nodeUnless (stops : List Token) (node : Reading Nat) : Reading Nat := do
  if stops.contains (← peek) then add .empty else node

/-- The items of a sequence, each behind its sign. -/
def entries (stops : List Token) (node : Reading Nat) : (fuel : Nat) → Reading (List Nat)
  | 0 => fail
  | fuel + 1 => do
    if ← accept .blockEntry then
      let item ← nodeUnless stops node
      return item :: (← entries stops node fuel)
    else return []

/-- The value behind its sign, or the empty one. -/
def valueUnless (stops : List Token) (node : Reading Nat) : Reading Nat := do
  if ← accept .value then nodeUnless stops node else add .empty

/-- The entries of a mapping in block style, up to its end. -/
def blockMapping (node : Reading Nat) : (fuel : Nat) → Reading (List (Nat × Nat))
  | 0 => fail
  | fuel + 1 => do
    let stops := [Token.key, Token.value, Token.blockEnd]
    if ← accept .key then
      let k ← nodeUnless stops node
      let v ← valueUnless stops node
      return (k, v) :: (← blockMapping node fuel)
    else
      expect .blockEnd
      return []

/-- The items of a flow collection, with commas between them, up to its end. -/
def flow {α : Type} (closing : Token) (item : Reading α) : (fuel : Nat) → (first : Bool) →
    Reading (List α)
  | 0, _ => fail
  | fuel + 1, first => do
    if ← accept closing then return []
    if !first then expect .flowEntry
    if ← accept closing then return []
    let a ← item
    return a :: (← flow closing item fuel false)

/-- A node of a flow sequence; a key with its value is a mapping of one entry. -/
def flowItem (node : Reading Nat) : Reading Nat := do
  if ← accept .key then
    let n ← fresh
    let k ← nodeUnless [.value, .flowEntry, .flowSequenceEnd] node
    let v ← valueUnless [.flowEntry, .flowSequenceEnd] node
    place n (.map .map [(k, v)])
    return n
  else node

/-- An entry of a flow mapping; what has no key sign is a key without a value. -/
def flowPair (node : Reading Nat) : Reading (Nat × Nat) := do
  if ← accept .key then
    let k ← nodeUnless [.value, .flowEntry, .flowMappingEnd] node
    let v ← valueUnless [.flowEntry, .flowMappingEnd] node
    return (k, v)
  else
    let k ← node
    return (k, ← add .empty)

/-- The tag that a handle and a suffix make. -/
def tagName (handles : List (String × String)) : Option String → String → Reading String
  | none, suffix => return suffix
  | some handle, suffix =>
    match handles.lookup handle with
    | some lead => return lead ++ suffix
    | none => fail

/-- The name and the tag of a node, in either order. -/
def properties (handles : List (String × String)) : Reading (Option String × Option String) := do
  let anchor? : Reading (Option String) := do
    match ← peek with
    | .anchor name => do
      skip
      return some name
    | _ => return none
  let tag? : Reading (Option (Option String × String)) := do
    match ← peek with
    | .tag handle suffix => do
      skip
      return some (handle, suffix)
    | _ => return none
  let (anchor, tag) ←
    match ← anchor? with
    | some name => pure (some name, ← tag?)
    | none =>
      match ← tag? with
      | some t => pure (← anchor?, some t)
      | none => pure (none, none)
  match tag with
  | none => return (anchor, none)
  | some (handle, suffix) => return (anchor, some (← tagName handles handle suffix))

/-- The tag `!` leaves the type to the notation, even that of a quoted scalar. -/
def typeOr (given : Option String) (written bare : Tag) : Tag :=
  match given with
  | none => written
  | some t => if t = "!" then bare else .ofUri t

/-- A number for a node of a name, which no other node may have. -/
def named : Option String → Reading Nat
  | none => fresh
  | some name => do
    if ((← get).named.lookup name).isSome then fail
    let n ← fresh
    modify fun r => { r with named := (name, n) :: r.named }
    return n

/-- A node. Block collections start one only where `block` is set, and a sequence that is not
indented only where `indentless` is set. -/
def node (handles : List (String × String)) : (fuel : Nat) → (block indentless : Bool) →
    Reading Nat
  | 0, _, _ => fail
  | fuel + 1, block, indentless => do
    if let .alias name ← peek then
      skip
      aliased name
    else
      let (anchor, tag) ← properties handles
      let inBlock := node handles fuel true false
      let inMapping := node handles fuel true true
      let inFlow := node handles fuel false false
      let listTag := typeOr tag .list .list
      let mapTag := typeOr tag .map .map
      let t ← peek
      if indentless && t = .blockEntry then
        let n ← named anchor
        let items ← entries [.blockEntry, .key, .value, .blockEnd] inBlock fuel
        place n (.list listTag items)
        return n
      match t with
      | .scalar text plain =>
        skip
        let n ← named anchor
        let bare := Tag.ofPlain text
        place n (.scalar (typeOr tag (if plain then bare else .text) bare) text)
        return n
      | .flowSequenceStart =>
        let n ← named anchor
        skip
        let items ← flow .flowSequenceEnd (flowItem inFlow) fuel true
        place n (.list listTag items)
        return n
      | .flowMappingStart =>
        let n ← named anchor
        skip
        let es ← flow .flowMappingEnd (flowPair inFlow) fuel true
        place n (.map mapTag es)
        return n
      | .blockSequenceStart =>
        if !block then fail
        let n ← named anchor
        skip
        let items ← entries [.blockEntry, .blockEnd] inBlock fuel
        expect .blockEnd
        place n (.list listTag items)
        return n
      | .blockMappingStart =>
        if !block then fail
        let n ← named anchor
        skip
        let es ← blockMapping inMapping fuel
        place n (.map mapTag es)
        return n
      | _ =>
        if anchor.isNone && tag.isNone then fail
        let n ← named anchor
        place n (.scalar (typeOr tag .null .null) "")
        return n

/-- The tag handles that need no directive. -/
def standardHandles : List (String × String) := [("!", "!"), ("!!", Tag.authority)]

/-- The directives in front of a document: the tag handles they define. -/
def directives : (fuel : Nat) → (versioned : Bool) → List (String × String) →
    Reading (List (String × String))
  | 0, _, _ => fail
  | fuel + 1, versioned, handles => do
    match ← peek with
    | .version major _ =>
      skip
      if versioned || major != 1 then fail
      directives fuel true handles
    | .tagDirective handle lead =>
      skip
      if (handles.lookup handle).isSome then fail
      directives fuel versioned ((handle, lead) :: handles)
    | .otherDirective =>
      skip
      directives fuel versioned handles
    | _ => return handles ++ standardHandles

def skipAll (t : Token) : (fuel : Nat) → Reading Unit
  | 0 => return ()
  | fuel + 1 => do
    if ← accept t then skipAll t fuel

/-- The node of a document that starts with directives or a marker, or nothing at the end of the
stream. -/
def marked (fuel : Nat) : Reading (Option Nat) := do
  if (← peek) = .streamEnd then return none
  let handles ← directives fuel false []
  expect .documentStart
  match ← peek with
  | .version _ _ | .tagDirective _ _ | .otherDirective | .documentStart | .documentEnd
  | .streamEnd => some <$> add .empty
  | _ => some <$> node handles fuel true false

/-- The node of the only document of a stream, or nothing if there is none. -/
def stream (fuel : Nat) : Reading (Option Nat) := do
  let root ←
    match ← peek with
    | .version _ _ | .tagDirective _ _ | .otherDirective | .documentStart | .streamEnd =>
      marked fuel
    | _ => some <$> node standardHandles fuel true false
  skipAll .documentEnd fuel
  if (← peek) != .streamEnd then
    let _ ← directives fuel false []
    fail
  return root

end Reading

/-- The nodes of a text that holds one document, and the number of the outermost; nothing if it
holds none. -/
def nodes (cs : List Char) : Except Error (Option (Graph × Nat)) := do
  if !cs.all isReadable then throw .malformed
  let (root, r) ← (Reading.stream (5 * cs.length + 10)).run ⟨.start cs, .nil, []⟩
  return root.map fun n => (r.graph, n)

end FlowPipeline.Yaml
