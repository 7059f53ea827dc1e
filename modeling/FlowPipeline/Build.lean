import FlowPipeline.Flow.Issue
import FlowPipeline.Json.Shown
import FlowPipeline.TypeDefinitions
import FlowPipeline.Work

/-! # Building a project

A build reads the manifest and compiles the scripts of its flows. A script is compiled only if there
is a flow of its name and nothing in it is an error.
-/

namespace FlowPipeline

/-- What compiling a script needs to know of the project. -/
structure Context where
  root : Path
  output : Path
  integrations : List Integration
  /-- The names of the models that scripts may use. -/
  models : List String
  options : CompilerOptions

namespace Context

/-- The flow of a script. -/
def flowOf? (c : Context) (script : Path) : Option Flow :=
  (Integration.findFlow? c.integrations script.stem).map Prod.snd

/-- Where a script's compiled form goes. -/
def outputOf (c : Context) (script : Path) : Path :=
  c.output.join (Path.ofString (script.stem ++ ".js"))

end Context

namespace Build
open Work

/-- The manifest of a project. -/
def readManifest (root : Path) : Work Manifest := do
  let p := root.child manifestName
  if !(← has p) then throw (.manifest (.missing p.toText))
  let text ← readText p
  ofExcept Fault.manifest (Manifest.parse text)

/-- The manifest with its integrations; their issues are logged. -/
def readIntegrations (root : Path) : Work (Manifest × List Integration) := do
  let m ← readManifest root
  let is ← normalize m
  logAll (Issue.log (Integration.issues is))
  return (m, is)

/-- The types of the host, if there is a file of them. -/
def hostTypes (s : Settings) : Work (Option String) :=
  match s.hostTypes with
  | none => pure none
  | some p => some <$> readText p

/-- The fault that the type definitions cannot be made. -/
def typesFault : TypeDefinitions.Failure → Fault
  | .manifest e => .manifest e
  | .json e => .json e false

/-- Writes the type definitions, and says where. -/
def writeTypes (s : Settings) (m : Manifest) (is : List Integration) : Work Path := do
  let host ← hostTypes s
  let p := s.root.child TypeDefinitions.fileName
  let text ← ofExcept typesFault (TypeDefinitions.render m.models is host)
  writeText p text
  return p

/-- The options of a file, or the standard ones. -/
def readOptions (file : Option Path) : Work CompilerOptions := do
  match file with
  | none => return .standard
  | some p =>
    if !(← has p) then throw (.options (.missing p.toText))
    let text ← readText p
    ofExcept Fault.options (CompilerOptions.parse p.toText text)

def projectOptions (s : Settings) : Work CompilerOptions := do
  let options ← readOptions s.compilerOptions
  if s.debug then
    log .debug ("Compiler options: " ++ String.ofList (Json.object options).shown)
  return options

/-- The given options, or those of the project. -/
def optionsOr (s : Settings) : Option CompilerOptions → Work CompilerOptions
  | some o => pure o
  | none => projectOptions s

/-- Reads the manifest, writes the type definitions if they are missing or to be renewed, and reads
the options unless they are given. -/
def prepare (s : Settings) (options : Option CompilerOptions) (renew : Bool) :
    Work (Manifest × Context) := do
  let (m, is) ← readIntegrations s.root
  let types := s.root.child TypeDefinitions.fileName
  if renew || !(← has types) then
    let p ← writeTypes s m is
    log .debug ("Type definitions written to " ++ p.toText)
  let options ← optionsOr s options
  return (m, ⟨s.root, s.output, is, Integration.modelNames is, options⟩)

/-- Whether a file at the top level is a script by its name: declarations and the generated types are
none. -/
def isListed (name : String) : Bool :=
  ".ts".toList.isSuffixOf name.toList && name != TypeDefinitions.fileName &&
    !".d.ts".toList.isSuffixOf name.toList

/-- The scripts at the top level of a project. -/
def listed (d : Disk) (root : Path) : List Path := ((d.list root).filter isListed).map root.child

def scripts (root : Path) : Work (List Path) := do return listed (← disk) root

/-- What became of a script. -/
inductive Outcome where
  | compiled (output : Path) (report : Lint.Report)
  | notInManifest
  | blocked (report : Lint.Report)
  | failed (message : String)
deriving DecidableEq, Repr

def Outcome.name : Outcome → String
  | .compiled _ _ => "compiled"
  | .notInManifest => "not_in_manifest"
  | .blocked _ => "blocked"
  | .failed _ => "failed"

/-- Lints a script file and logs what is found. -/
def lintFile (p : Path) (source type : String) (models : List String) : Work Lint.Report := do
  let label := p.toText
  let report ← ofExcept (Fault.ofLint label) (Lint.lint source type models label)
  logAll report.log
  return report

/-- Lints the script of a flow, and compiles it if nothing is in the way. -/
def compileFlow (run : Runner) (c : Context) (script : Path) (type : String) : Work Outcome := do
  let source ← readText script
  let report ← lintFile script source type c.models
  if !report.isEligible then return .blocked report
  let output ← ofExcept id (run (Compiler.command Compiler.program c.options script) source)
  let p := c.outputOf script
  makeDirs p.parent
  writeText p output
  return .compiled p report

/-- Whether a failure is the script's own, so that others can still be compiled. -/
def isOfScript : Fault → Bool
  | .compilation _ | .script _ _ | .file _ | .decoding _ => true
  | _ => false

/-- Compiles a script, if the manifest has a flow for it. -/
def compileScript (run : Runner) (c : Context) (script : Path) : Work Outcome := do
  match c.flowOf? script with
  | none =>
    log .debug ("Skipping " ++ script.toText ++ ": no flow named " ++ script.stem ++
      " in the manifest.")
    return .notInManifest
  | some flow =>
    match ← outcome (compileFlow run c script flow.type) with
    | .error e =>
      if !isOfScript e then throw e
      log .error ("Error compiling \"" ++ script.toText ++ "\": " ++ e.message)
      return .failed e.message
    | .ok r =>
      if r matches .compiled _ _ then
        log .info ("Compiled \"" ++ script.toText ++ "\" successfully")
      return r

/-- Whether the outcome lets a build succeed; only a script that was asked for may not be
blocked. -/
def Outcome.isFine (requested : Bool) : Outcome → Bool
  | .failed _ => false
  | .blocked _ => !requested
  | _ => true

/-- Compiles scripts in order, whatever becomes of each, and says whether all is fine. -/
def compileAll (run : Runner) (c : Context) (requested : Option String) : List Path → Work Bool
  | [] => return true
  | p :: ps => do
    let r ← compileScript run c p
    let rest ← compileAll run c requested ps
    return r.isFine (requested == some p.stem) && rest

/-- Removes the compiled form of a script, and says whether there was one. -/
def removeCompiled (c : Context) (script : Path) : Work Bool := do
  let p := c.outputOf script
  if ← has p then
    change (.remove p)
    log .info ("Removed " ++ p.toText)
    return true
  else
    log .warning ("No compiled artifact to remove for " ++ script.toText ++ " at " ++ p.toText)
    return false

/-- Flows without a script and scripts without a flow. -/
def mismatch? (is : List Integration) (scripts : List Path) : Option CompilationError :=
  let flows := (is.flatMap Integration.flows).map Flow.name
  let stems := (scripts.filter fun p => p.name != TypeDefinitions.fileName).map Path.stem
  let missing := flows.filter fun f => !stems.contains f
  let extra := stems.filter fun s => !flows.contains s
  if missing.isEmpty && extra.isEmpty then none else some (.unmatched missing extra)

/-- The scripts to compile: the named one, or all. -/
def wanted (root : Path) : Option String → Work (List Path)
  | none => scripts root
  | some name => do
    let p := root.join (Path.ofString (name ++ ".ts"))
    if !(← has p) then throw (.build ("Script file not found: " ++ p.toText))
    return [p]

/-- A failure as that of the build, if it is one that users can bring about. -/
def asBuild : Fault → Fault
  | .manifest e => if e.isReported then .build e.message else .manifest e
  | .options e => if e.isReported then .build e.message else .options e
  | .compilation e => .build e.message
  | .file e => .build e.message
  | e => e

/-- The scripts to compile, with the manifest and the context to compile them in. -/
def plan (s : Settings) (script : Option String) (matching : Bool) :
    Work (Manifest × Context × List Path) := do
  let (m, c) ← prepare s none false
  let ps ← wanted s.root script
  if matching then
    if let some e := mismatch? c.integrations (← scripts s.root) then throw (.compilation e)
  return (m, c, ps)

/-- Compiles one script or all; where `matching` is set, scripts and flows must belong together. -/
def compile (run : Runner) (s : Settings) (script : Option String) (matching : Bool) :
    Work (Manifest × Context × Bool) := do
  let (m, c, ps) ← mapFault asBuild (plan s script matching)
  makeDirs s.output
  let fine ← compileAll run c script ps
  return (m, c, fine)

/-- Renews the type definitions, and says where they are. -/
def generateTypes (s : Settings) : Work Path :=
  mapFault asBuild do
    let (m, is) ← readIntegrations s.root
    writeTypes s m is

end Build
end FlowPipeline
