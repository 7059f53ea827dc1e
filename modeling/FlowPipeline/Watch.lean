import FlowPipeline.Build

/-! # Watching a project

While a project is watched, changed scripts are compiled again, and all of them when the manifest
changes. A manifest that cannot be read leaves everything as it was read last.
-/

namespace FlowPipeline.Watch
open Work

/-- What a watcher reports of a path. -/
inductive Change where
  | added
  | modified
  | deleted
deriving DecidableEq, Repr

inductive EventKind where
  | added
  | changed
  | removed
deriving DecidableEq, Repr

def EventKind.name : EventKind → String
  | .added => "added"
  | .changed => "changed"
  | .removed => "removed"

/-- What has become of a path. -/
structure Event where
  kind : EventKind
  path : Path
deriving DecidableEq, Repr

/-- Whether a path is that of a script that is to be compiled when it changes. -/
def isScript (p : Path) : Bool := p.suffix == ".ts" && p.name != TypeDefinitions.fileName

def isManifest (p : Path) : Bool := p.name == manifestName

/-- Whether changes of a path concern the project of a directory. -/
def accepts (d : Disk) (root p : Path) : Bool :=
  d.resolve p.parent == d.resolve root && (isManifest p || isScript p)

/-- What the changes of a path come to. Whether it is there decides, as it may have been deleted and
written anew. -/
def kindOf (d : Disk) (p : Path) (changes : List Change) : Except FileError EventKind := do
  if !(← d.has p) then return .removed
  return if changes.all (· == .added) then .added else .changed

/-- The order of events: scripts first, each kind by its paths. -/
def Event.le (a b : Event) : Bool :=
  let late (e : Event) : Bool := isManifest e.path
  if late a == late b then decide (a.path.toText ≤ b.path.toText) else late b

/-- One event for each path that has changed. -/
def events (d : Disk) (changes : List (Change × Path)) : Except FileError (List Event) := do
  let event (p : Path) : Except FileError Event := do
    return ⟨← kindOf d p ((changes.filter fun c => c.2 == p).map Prod.fst), p⟩
  return (← (changes.map Prod.snd).eraseDups.mapM event).mergeSort Event.le

/-- What handles events: the project as it was read last, and what it takes to read it again. -/
structure Handler where
  settings : Settings
  /-- The options of the compiler, if they are not to be read again. -/
  options : Option CompilerOptions
  context : Context

namespace Handler

/-- Compiles all scripts, whatever becomes of each. -/
def compileExisting (run : Runner) (h : Handler) : Work PUnit := do
  let _ ← Build.compileAll run h.context none (← Build.scripts h.context.root)

/-- Whether a failure to read the manifest again leaves the handler at work. -/
def isTolerated : Fault → Bool
  | .manifest e => e.isReported
  | .file _ => true
  | _ => false

/-- The handler with the manifest as it is now, if it can be read. -/
def reload (h : Handler) : Work Handler := do
  match ← outcome (Build.prepare h.settings h.options true) with
  | .ok (_, c) =>
    log .info ("The " ++ manifestName ++ " was updated; recompiling every script.")
    return { h with context := c }
  | .error e =>
    if !isTolerated e then throw e
    log .error ("Keeping the previous configuration: " ++ e.message)
    return h

/-- The handler that an event is handled with: one that has read the manifest again, if that has
changed. -/
def renewed (h : Handler) (e : Event) : Work Handler :=
  if isManifest e.path && e.kind ≠ .removed then h.reload else return h

/-- Does for the scripts what an event asks for. -/
def respond (run : Runner) (h : Handler) (e : Event) : Work PUnit := do
  if isManifest e.path then
    if e.kind ≠ .removed then h.compileExisting run
  else if isScript e.path then
    if e.kind = .removed then
      let _ ← Build.removeCompiled h.context e.path
    else
      let _ ← Build.compileScript run h.context e.path

/-- Handles an event. A fault in what is done for the scripts leaves the handler renewed. -/
def handle (run : Runner) (h : Handler) (e : Event) : Work (Handler × Option Fault) := do
  match ← outcome (h.renewed e) with
  | .error f => return (h, some f)
  | .ok h =>
    match ← outcome (h.respond run e) with
    | .error f => return (h, some f)
    | .ok _ => return (h, none)

/-- Handles events in order, up to the first that fails. -/
def handleAll (run : Runner) (h : Handler) : List Event → Work (Handler × Option Fault)
  | [] => return (h, none)
  | e :: es => do
    match ← h.handle run e with
    | (h, none) => handleAll run h es
    | (h, some f) => return (h, some f)

/-- Handles changes that a watcher has reported together. -/
def handleChanges (run : Runner) (h : Handler) (changes : List (Change × Path)) :
    Work (Handler × Option Fault) := do
  h.handleAll run (← ofExcept Fault.file (events (← disk) changes))

end Handler

/-- Reads a project for being watched; its manifest will be read again when it changes. -/
def handler (s : Settings) (options : Option CompilerOptions) : Work Handler := do
  let (_, c) ← Build.prepare s options false
  return ⟨s, options, c⟩

/-- Reads a project for being watched, with the options of the compiler that it has now. -/
def opened (s : Settings) : Work Handler := do handler s (some (← Build.projectOptions s))

/-- Starts to watch a project: compiles all scripts. -/
def start (run : Runner) (s : Settings) : Work Handler := do
  let h ← mapFault Build.asBuild (opened s)
  makeDirs s.output
  log .debug ("Watching " ++ s.root.toText ++ " for *.ts and " ++ manifestName)
  h.compileExisting run
  return h

end FlowPipeline.Watch
