import FlowPipeline.CompilerOptions
import FlowPipeline.Path
import FlowPipeline.Text.Newline
import FlowPipeline.Text.Shell

/-! # The compiler

The compiler is a program of its own. It reads a script from its input and writes the result to its
output; its options stand on the command line.
-/

namespace FlowPipeline

/-- A command: the program and its arguments. -/
structure Command where
  program : String
  arguments : List String
deriving DecidableEq, Repr

def Command.words (c : Command) : List String := c.program :: c.arguments

/-- What became of a command. -/
inductive Execution where
  | missing
  /-- The program may not be executed. -/
  | refused
  | finished (code : Nat) (output errors : String)
deriving DecidableEq, Repr

/-- Why there is no output. -/
inductive CompilationError where
  | missing (program : String)
  | failed (code : Nat) (command : String) (details : String)
  /-- A failure that the runner of the command reports itself. -/
  | reported (message : String)
  /-- Scripts and flows that have no counterpart. -/
  | unmatched (flows scripts : List String)
deriving DecidableEq, Repr

namespace CompilationError

def message : CompilationError → String
  | .missing program => "Compiler command not found: " ++ program
  | .failed code command details =>
    "Compiler failed with exit code " ++ toString code ++ ": " ++ command ++
      (if details = "" then "" else "\n" ++ details)
  | .reported m => m
  | .unmatched flows scripts =>
    let missing := "The following syncs are missing a corresponding .ts file: "
    let extra := "The following .ts files do not have a corresponding sync in the config: "
    Text.joined "\n"
      ((if flows.isEmpty then [] else [missing ++ Text.joined ", " flows]) ++
        (if scripts.isEmpty then [] else [extra ++ Text.joined ", " scripts]))

end CompilationError

namespace Compiler

/-- The name of the compiler's program. -/
def program : String := "esbuild"

/-- The command that compiles the script of a path. -/
def command (program : String) (options : CompilerOptions) (script : Path) : Command :=
  let document := Json.obj [("compilerOptions", .object options)]
  ⟨program, [
    "--loader=ts", "--format=cjs", "--sourcefile=" ++ script.name,
    "--tsconfig-raw=" ++ document.sorted.render .line]⟩

/-- The output of a command, if it succeeded. A program that may not be executed is left to the
caller. -/
def output (c : Command) : Execution → Option (Except CompilationError String)
  | .missing => some (.error (.missing c.program))
  | .refused => none
  | .finished code output errors =>
    if code = 0 then some (.ok (Text.withUnixLines output))
    else
      some (.error (.failed code (Text.commandLine (c.words.take 4))
        (Text.trim (Text.withUnixLines errors))))

end Compiler
end FlowPipeline
