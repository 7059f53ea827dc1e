import FlowPipeline.Path
import FlowPipeline.Text.Quoted

/-! # The file system

The file system is a list of entries by their names from the root. There are directories and files
of bytes, and no links, so that a path and the names it leads to differ only by `..`. The length of
names and of paths is limited.
-/

namespace FlowPipeline

inductive Entry where
  | dir
  | file (bytes : List UInt8)
deriving DecidableEq, Repr

/-- Why the file system refuses something. -/
inductive Errno where
  | noEntry
  | denied
  | exists
  | notDirectory
  | isDirectory
  | nameTooLong
deriving DecidableEq, Repr

def Errno.number : Errno → Nat
  | .noEntry => 2
  | .denied => 13
  | .exists => 17
  | .notDirectory => 20
  | .isDirectory => 21
  | .nameTooLong => 36

def Errno.text : Errno → String
  | .noEntry => "No such file or directory"
  | .denied => "Permission denied"
  | .exists => "File exists"
  | .notDirectory => "Not a directory"
  | .isDirectory => "Is a directory"
  | .nameTooLong => "File name too long"

/-- A refusal, with the path as it was given. -/
structure FileError where
  errno : Errno
  path : String
deriving DecidableEq, Repr

def FileError.message (e : FileError) : String :=
  "[Errno " ++ toString e.errno.number ++ "] " ++ e.errno.text ++ ": " ++
    String.ofList (Text.quoted e.path)

structure Disk where
  entries : List (List String × Entry)
  /-- The directory that open paths start from. -/
  here : List String

namespace Disk

/-- The entry of the given names; the root is always there. -/
def find? (d : Disk) (names : List String) : Option Entry :=
  if names.isEmpty then some .dir else d.entries.lookup names

/-- The names behind one step from a directory. -/
def step (dir : List String) (name : String) : List String :=
  if name = ".." then dir.dropLast else dir ++ [name]

/-- How many bytes a name may have. -/
def longestName : Nat := 255

/-- How many bytes a path may have. -/
def longestPath : Nat := 4095

/-- Where a path leads from a directory. All on the way must be directories, what it leads to need
not exist. -/
def walk (d : Disk) (dir : List String) : List String → Except Errno (List String)
  | [] => .ok dir
  | name :: names =>
    if longestName < name.utf8ByteSize then .error .nameTooLong
    else if names.isEmpty then .ok (step dir name)
    else
      match d.find? (step dir name) with
      | none => .error .noEntry
      | some (.file _) => .error .notDirectory
      | some .dir => walk d (step dir name) names

def locate (d : Disk) (p : Path) : Except Errno (List String) :=
  if longestPath < p.toText.utf8ByteSize then .error .nameTooLong
  else d.walk (if p.isAbsolute then [] else d.here) p.names

/-- What a path leads to. -/
def entry (d : Disk) (p : Path) : Except Errno Entry := do
  match d.find? (← d.locate p) with
  | some e => return e
  | none => throw .noEntry

/-- Whether a path leads to something of a kind. Only a name that is too long is a fault. -/
def leadsTo (d : Disk) (kind : Entry → Bool) (p : Path) : Except FileError Bool :=
  match d.entry p with
  | .ok e => .ok (kind e)
  | .error .nameTooLong => .error ⟨.nameTooLong, p.toText⟩
  | .error _ => .ok false

def has (d : Disk) (p : Path) : Except FileError Bool := d.leadsTo (fun _ => true) p

def isDir (d : Disk) (p : Path) : Except FileError Bool := d.leadsTo (fun e => e == .dir) p

/-- The path from the root, without `..`. -/
def resolve (d : Disk) (p : Path) : Path :=
  ⟨1, p.names.foldl step (if p.isAbsolute then [] else d.here)⟩

/-- The bytes of a file. -/
def read (d : Disk) (p : Path) : Except FileError (List UInt8) :=
  match d.entry p with
  | .ok (.file bs) => .ok bs
  | .ok .dir => .error ⟨.isDirectory, p.toText⟩
  | .error e => .error ⟨e, p.toText⟩

/-- The entries with one more, or with one replaced. -/
def put (names : List String) (e : Entry) : List (List String × Entry) → List (List String × Entry)
  | [] => [(names, e)]
  | (n, f) :: es => if n = names then (n, e) :: es else (n, f) :: put names e es

def set (d : Disk) (names : List String) (e : Entry) : Disk :=
  { d with entries := put names e d.entries }

/-- The file system without an entry and all below it. -/
def erase (d : Disk) (names : List String) : Disk :=
  { d with entries := d.entries.filter fun e => !names.isPrefixOf e.1 }

/-- Writes a file; its directory must exist. -/
def write (d : Disk) (p : Path) (bytes : List UInt8) : Except FileError Disk :=
  match d.locate p with
  | .error e => .error ⟨e, p.toText⟩
  | .ok names =>
    match d.find? names with
    | some .dir => .error ⟨.isDirectory, p.toText⟩
    | _ => .ok (d.set names (.file bytes))

/-- Makes a directory; what holds it must exist. -/
def makeDir (d : Disk) (p : Path) : Except FileError Disk :=
  match d.locate p with
  | .error e => .error ⟨e, p.toText⟩
  | .ok names =>
    match d.find? names with
    | some _ => .error ⟨.exists, p.toText⟩
    | none => .ok (d.set names .dir)

/-- Makes a directory that may already be there, and the directories it is in. -/
def makeDirs (d : Disk) (p : Path) : (depth : Nat) → Except FileError Disk
  | 0 => .error ⟨.noEntry, p.toText⟩
  | depth + 1 =>
    match d.makeDir p with
    | .ok d => .ok d
    | .error e =>
      if e.errno = .noEntry then do
        let d ← d.makeDirs p.parent depth
        d.makeDir p
      else do
        if ← d.isDir p then return d else throw e

/-- Removes a file. -/
def remove (d : Disk) (p : Path) : Except FileError Disk :=
  match d.locate p with
  | .error e => .error ⟨e, p.toText⟩
  | .ok names =>
    match d.find? names with
    | none => .error ⟨.noEntry, p.toText⟩
    | some .dir => .error ⟨.isDirectory, p.toText⟩
    | some (.file _) => .ok (d.erase names)

/-- The names of what is in a directory, in order; none if there is no such directory. -/
def list (d : Disk) (p : Path) : List String :=
  match d.locate p with
  | .error _ => []
  | .ok names =>
    if d.find? names matches some .dir then
      let inside := d.entries.filterMap fun (n, _) =>
        if n.dropLast = names ∧ n ≠ [] then n.getLast? else none
      inside.mergeSort fun a b => decide (a ≤ b)
    else []

end Disk
end FlowPipeline
