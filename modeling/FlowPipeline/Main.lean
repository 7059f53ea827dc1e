import FlowPipeline.CommandLine
import Std.Time.Format

/-! # The program

The files that a task may need are read before it starts, and what it has changed is written when
it ends. Neither commands nor a watcher of the file system can be reached from here: a command
counts as missing, and watching ends once all scripts are compiled.
-/

namespace FlowPipeline.Program

/-- The file system with a path as it is, and with what is below it down to a depth. -/
def load : Nat → Path → Disk → IO Disk
  | depth, p, d => do
    match ← (IO.FS.realPath p.toText).toBaseIO with
    | .error _ => return d
    | .ok real =>
      if ← real.isDir then
        match depth with
        | 0 => return d.set p.names .dir
        | depth + 1 =>
          (← real.readDir).foldlM (fun d e => load depth (p.child e.fileName) d)
            (d.set p.names .dir)
      else
        match ← (IO.FS.readBinFile real).toBaseIO with
        | .error _ => return d
        | .ok bytes => return d.set p.names (.file bytes.toList)

/-- The file system with a path, all directories that it is in, and what is below it. -/
def loadPath (depth : Nat) (d : Disk) (p : Path) : IO Disk := do
  let outer := (List.range p.names.length).map fun n => Path.mk 1 (p.names.take n)
  load depth p (← outer.foldlM (fun d q => load 0 q d) d)

/-- Makes the file system what it has become. -/
def save (old new : Disk) : IO Unit := do
  for (names, e) in new.entries do
    if old.entries.lookup names != some e then
      let p := (Path.mk 1 names).toText
      match e with
      | .dir => IO.FS.createDirAll p
      | .file bytes => IO.FS.writeBinFile p ⟨bytes.toArray⟩
  for (names, _) in old.entries do
    if (new.entries.lookup names).isNone then IO.FS.removeFile (Path.mk 1 names).toText

def environment : IO Environment :=
  Settings.variableNames.filterMapM fun name => return (← IO.getEnv name).map fun v => (name, v)

/-- The present moment. -/
def now : IO Moment := do
  let t := Std.Time.DateTime.ofTimestampWithZone (← Std.Time.Timestamp.now) Std.Time.TimeZone.UTC
  return ⟨⟨t.year.toInt.toNat, t.month.toNat, t.day.toNat⟩, t.hour.toNat, t.minute.toNat,
    t.second.toNat, t.nanosecond.toNat / 1000, some 0⟩

/-- Does what the arguments ask for. -/
def execute (args : List String) : IO UInt32 := do
  let env ← environment
  let here := Path.ofString (← IO.currentDir).toString
  let empty : Disk := ⟨[], here.names⟩
  let paths := (CommandLine.Invocation.paths env args).map empty.resolve
  let disk ← paths.foldlM (loadPath 2) (← loadPath 0 empty here)
  let missing : Runner := fun c _ => .error (.compilation (.missing c.program))
  let (result, changed) := CommandLine.execute missing env (← now) args disk
  save disk changed
  match result with
  | .ok r =>
    (← IO.getStdout).putStr r.output
    (← IO.getStderr).putStr r.errors
    return r.exit.toUInt32
  | .error f =>
    (← IO.getStderr).putStr (f.message ++ "\n")
    return 1

end FlowPipeline.Program

def main (args : List String) : IO UInt32 :=
  FlowPipeline.Program.execute args
