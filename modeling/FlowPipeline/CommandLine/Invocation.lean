import FlowPipeline.CommandLine.Usage
import FlowPipeline.Package

/-! # Command lines

A command line names the project and a task.
-/

namespace FlowPipeline.CommandLine

inductive Task where
  | compile (script : Option String) (matching : Bool)
  | watch
  | lint (script : String)
  | generateTypes
  | package (version : String) (wanted : Selection) (output : Option String)
  | resolveInterval (cadence : String)
deriving DecidableEq, Repr

/-- A task with what holds for all tasks. -/
structure Invocation where
  project : String
  tag : String
  compilerOptions : Option String
  debug : Bool
  task : Task
deriving DecidableEq, Repr

/-- Why a command line names no task. -/
inductive NoTask where
  | helpWanted
  | misuse (e : UsageError)
deriving DecidableEq, Repr

/-- A command of the program: the options of its own, the names of its arguments, and the task that
they make. -/
structure Subcommand where
  flags : List String
  valued : List String
  arguments : List String
  task : Words → Task

/-- The commands by their names. -/
def commands : List (String × Subcommand) := [
  ("compile", ⟨["--check-manifest"], ["--script"], [], fun w =>
    .compile (w.value? "--script") (w.has "--check-manifest")⟩),
  ("watch", ⟨[], [], [], fun _ => .watch⟩),
  ("lint", ⟨[], [], ["SCRIPT_PATH"], fun w => .lint (w.plain.headD "")⟩),
  ("generate-types", ⟨[], [], [], fun _ => .generateTypes⟩),
  ("package", ⟨[], ["--version", "--sync", "--action", "--output"], [], fun w =>
    .package ((w.value? "--version").getD "") ⟨w.value? "--sync", w.value? "--action"⟩
      (w.value? "--output")⟩),
  ("resolve-interval", ⟨[], [], ["CADENCE"], fun w => .resolveInterval (w.plain.headD "")⟩)]

/-- The task that the words behind the name of a command make. -/
def Subcommand.read (c : Subcommand) (args : List String) : Except NoTask Task :=
  match (Usage.mk c.flags c.valued true).words args with
  | .error e => .error (.misuse e)
  | .ok w =>
    if w.has help then .error .helpWanted
    else
      match c.arguments[w.plain.length]?, w.plain.drop c.arguments.length with
      | some name, _ => .error (.misuse (.noArgument name))
      | none, [] => .ok (c.task w)
      | none, extra => .error (.misuse (.extraArguments extra))

namespace Invocation

/-- The options in front of the command. -/
def usage : Usage := ⟨["--debug"], ["--project-dir", "--env", "--compiler-options"], false⟩

/-- What is wrong with a word where a command should stand. An option there may still ask for
help. -/
def unknown (name : String) (args : List String) : NoTask :=
  match usage.words (name :: args) with
  | .error e => .misuse e
  | .ok w => if w.has help then .helpWanted else .misuse (.unknownCommand name)

/-- Reads a command line. -/
def read (args : List String) : Except NoTask Invocation := do
  match usage.words args with
  | .error e => throw (.misuse e)
  | .ok w =>
    if w.has help then throw .helpWanted
    match w.plain with
    | [] => throw (.misuse .noCommand)
    | name :: args =>
      match commands.lookup name with
      | none => throw (unknown name args)
      | some c =>
        return {
          project := (w.value? "--project-dir").getD "."
          tag := (w.value? "--env").getD "dev"
          compilerOptions := w.value? "--compiler-options"
          debug := w.has "--debug"
          task := ← c.read args }

/-- The paths that a command line is about. -/
def paths (env : Environment) (args : List String) : List Path :=
  match read args with
  | .error _ => []
  | .ok i =>
    let root := Path.ofString i.project
    let named := i.compilerOptions.toList ++ (env.lookup "NANGO_HOST_TYPES_PATH").toList
    let other :=
      match i.task with
      | .lint script => [script]
      | .package _ _ output => output.toList
      | _ => []
    root :: named.map (fun p => root.join (Path.ofString p)) ++ other.map Path.ofString

end Invocation
end FlowPipeline.CommandLine
