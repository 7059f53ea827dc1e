import FlowPipeline.CommandLine.Invocation
import FlowPipeline.Deployment
import FlowPipeline.Watch

/-! # The command line

A task prints its result, and logs. It fails with a message if the project is at fault.
-/

namespace FlowPipeline.CommandLine
open Work

/-- What a task has printed, and why it failed if it did. -/
structure Ending where
  printed : List String
  failure : Option String
deriving DecidableEq, Repr

/-- Lints a script, which need not be one of the project, as that of the flow of its name. -/
def lint (s : Settings) (script : Path) : Work Ending := do
  let is ← normalize (← Build.readManifest s.root)
  match Integration.findFlow? is script.stem with
  | none => return ⟨[], some ("No flow named " ++ script.stem ++ " in the manifest.")⟩
  | some (_, flow) =>
    let source ← readText script
    let report ← Build.lintFile script source flow.type (Integration.modelNames is)
    let counts := script.toText ++ ": " ++ toString report.errors.length ++ " error(s), " ++
      toString report.warnings.length ++ " warning(s)"
    let refusal := script.toText ++ " cannot be compiled until its errors are fixed."
    return ⟨[counts], if report.isEligible then none else some refusal⟩

/-- Writes a deployment to a file, or prints it. -/
def deliver (d : Deployment) (output : Option String) : Work Ending := do
  let document ← ofExcept (Fault.json · false) d.document
  let text := document.render (.indented 2)
  match output with
  | none => return ⟨[text], none⟩
  | some file =>
    let p := Path.ofString file
    match ← outcome (writeText p text) with
    | .ok _ => return ⟨[((← disk).resolve p).toText], none⟩
    | .error e => return ⟨[], some e.message⟩

/-- A schedule as JSON. -/
def scheduleJson (i : Cadence.Interval) : Json :=
  .obj [("interval", .str i.text), ("interval_ms", .int i.length), ("offset_ms", .int i.offset)]

def Invocation.settings (i : Invocation) (env : Environment) : Work Settings := do
  let wishes : Wishes :=
    ⟨i.tag, env, Path.ofString i.project, i.compilerOptions.map Path.ofString, none, i.debug⟩
  ofExcept Fault.settings (Settings.resolve (← disk) wishes)

/-- Does the task of an invocation. -/
def Invocation.perform (run : Runner) (env : Environment) (now : Moment) (i : Invocation) :
    Work Ending := do
  match i.task with
  | .compile script matching =>
    let s ← i.settings env
    let (_, _, fine) ← Build.compile run s script matching
    if fine then return ⟨[s.output.toText], none⟩
    else return ⟨[], some "The scripts did not compile successfully."⟩
  | .watch =>
    let _ ← Watch.start run (← i.settings env)
    return ⟨[], none⟩
  | .lint script => lint (← i.settings env) (Path.ofString script)
  | .generateTypes =>
    let p ← Build.generateTypes (← i.settings env)
    return ⟨[p.toText], none⟩
  | .package version wanted output =>
    let (d, _) ← Deployment.ofProject run (← i.settings env) version wanted now
    deliver d output
  | .resolveInterval cadence =>
    match Cadence.resolve cadence now with
    | .ok i => return ⟨[(scheduleJson i).render .line], none⟩
    | .error f => return ⟨[], some (f.message cadence)⟩

/-- Whether a failure of a task is reported as one of the project. -/
def Task.reports : Task → Fault → Bool
  | _, .settings e => e.isReported
  | _, .build _ => true
  | .lint _, .manifest e => e.isReported
  | .lint _, .script _ _ | .lint _, .file _ => true
  | _, _ => false

/-- What the program leaves behind: its exit code and its two outputs. -/
structure Result where
  exit : Nat
  output : String
  errors : String
deriving DecidableEq, Repr

def lines (ls : List String) : String := String.join (ls.map (· ++ "\n"))

/-- The lines of the log that are shown; the debugging ones only if they are wanted. -/
def shownLog (debug : Bool) (log : Log) : List String :=
  (log.filter fun r => debug || r.1 != .debug).map fun r => r.1.name ++ " " ++ r.2

def Ending.result (e : Ending) (debug : Bool) (log : Log) : Result :=
  let code := if e.failure.isSome then 1 else 0
  ⟨code, lines e.printed, lines (shownLog debug log ++ e.failure.toList)⟩

def usageText : String :=
  "Usage: [--project-dir DIR] [--env TAG] [--compiler-options FILE] [--debug] COMMAND [ARGS]\n" ++
    "Commands:\n" ++
    "  compile [--script NAME] [--check-manifest]\n" ++
    "  watch\n" ++
    "  lint SCRIPT_PATH\n" ++
    "  generate-types\n" ++
    "  package [--version TEXT] [--sync NAME] [--action NAME] [--output FILE]\n" ++
    "  resolve-interval CADENCE\n"

/-- Does what a command line asks for. A failure that is not the project's is left to the caller. -/
def execute (run : Runner) (env : Environment) (now : Moment) (args : List String) (d : Disk) :
    Except Fault Result × Disk :=
  match Invocation.read args with
  | .error .helpWanted => (.ok ⟨0, usageText, ""⟩, d)
  | .error (.misuse e) => (.ok ⟨2, "", usageText ++ "Error: " ++ e.message ++ "\n"⟩, d)
  | .ok i =>
    match ((i.perform run env now).run).run { disk := d, log := [] } with
    | (.ok e, w) => (.ok (e.result i.debug w.log), w.disk)
    | (.error f, w) =>
      if i.task.reports f then (.ok ((Ending.mk [] (some f.message)).result i.debug w.log), w.disk)
      else (.error f, w.disk)

end FlowPipeline.CommandLine
