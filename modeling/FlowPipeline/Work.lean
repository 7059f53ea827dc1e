import FlowPipeline.Compiler
import FlowPipeline.Disk
import FlowPipeline.Flow
import FlowPipeline.Json.OfValue
import FlowPipeline.Lint
import FlowPipeline.Settings
import FlowPipeline.Text.Newline
import FlowPipeline.Text.Utf8

/-! # Work on a project

Work changes files, logs, and may fail. What it has done before it fails stays done.
-/

namespace FlowPipeline

/-- Why work fails. -/
inductive Fault where
  | manifest (e : ManifestError)
  | options (e : CompilerOptionsError)
  | compilation (e : CompilationError)
  /-- A script that cannot be parsed, with the line of the error. -/
  | script (label : String) (line : Nat)
  | settings (e : SettingsError)
  | file (e : FileError)
  | decoding (e : Text.Utf8.DecodeError)
  | encoding (e : Text.Utf8.EncodeError)
  | json (e : NotJson) (compact : Bool)
  /-- A build that cannot be completed. -/
  | build (message : String)
deriving DecidableEq, Repr

def Fault.message : Fault → String
  | .manifest e => e.message
  | .options e => e.message
  | .compilation e => e.message
  | .script label line => Lint.parseMessage label line
  | .settings e => e.message
  | .file e => e.message
  | .decoding e => e.message
  | .encoding e => e.message
  | .json e compact => e.message compact
  | .build m => m

/-- The fault that a script with the given label cannot be linted. -/
def Fault.ofLint (label : String) : Lint.Failure → Fault
  | .malformed line => .script label line
  | .encoding e => .encoding e

/-- A change of the file system. -/
inductive Edit where
  | write (p : Path) (bytes : List UInt8)
  | makeDirs (p : Path)
  | remove (p : Path)
deriving DecidableEq, Repr

/-- The file system after a change. -/
def Edit.apply (d : Disk) : Edit → Except FileError Disk
  | .write p bytes => d.write p bytes
  | .makeDirs p => d.makeDirs p (p.names.length + 1)
  | .remove p => d.remove p

/-- What work works on. -/
structure World where
  disk : Disk
  log : Log
  /-- The changes that work has made, in order, each with the file system before it. -/
  history : List (Disk × Edit) := []

abbrev Work := ExceptT Fault (StateM World)

/-- What runs a command on an input. -/
abbrev Runner := Command → String → Except Fault String

namespace Work

def disk : Work Disk := do return (← get).disk

def log (level : Level) (message : String) : Work Unit :=
  modify fun w => { w with log := w.log ++ [(level, message)] }

def logAll (log : Log) : Work Unit :=
  modify fun w => { w with log := w.log ++ log }

def ofExcept {ε α : Type} (fault : ε → Fault) (r : Except ε α) : Work α :=
  match r with
  | .ok a => return a
  | .error e => throw (fault e)

/-- Lets the outcome of work be looked at, failures too. -/
def outcome {α : Type} (w : Work α) : Work (Except Fault α) :=
  ExceptT.mk (Except.ok <$> w.run)

/-- Replaces some failures. -/
def mapFault {α : Type} (f : Fault → Fault) (w : Work α) : Work α := do
  match ← outcome w with
  | .ok a => return a
  | .error e => throw (f e)

def change (e : Edit) : Work Unit := do
  let d ← disk
  let changed ← ofExcept Fault.file (e.apply d)
  modify fun w => { w with disk := changed, history := w.history ++ [(d, e)] }

/-- Whether there is anything at a path. -/
def has (p : Path) : Work Bool := do ofExcept Fault.file ((← disk).has p)

/-- The text of a file, with line feeds for all line ends. -/
def readText (p : Path) : Work String := do
  let bytes ← ofExcept Fault.file ((← disk).read p)
  Text.withUnixLines <$> ofExcept Fault.decoding (Text.Utf8.decode bytes)

/-- Writes a text to a file. The file is left empty if the text cannot be encoded. -/
def writeText (p : Path) (s : String) : Work Unit := do
  match Text.Utf8.encoded s with
  | .ok bytes => change (.write p bytes)
  | .error e =>
    change (.write p [])
    throw (.encoding e)

def makeDirs (p : Path) : Work Unit := change (.makeDirs p)

/-- Normalization as work. -/
def normalize (m : Manifest) : Work (List Integration) := do
  let w ← get
  let (r, log) := (m.normalize).run w.log
  set { w with log }
  ofExcept Fault.manifest r

end Work
end FlowPipeline
