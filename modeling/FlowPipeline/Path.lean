import FlowPipeline.Text.Blank

/-! # Paths

A path is a list of names, from the root of the file system or from a directory that is left open.
Empty names and `.` have no meaning in a path; `..` is a name like any other until it is followed.
Two slashes in front of a path stay two, which makes no difference to where it leads; more count as
one.
-/

namespace FlowPipeline

structure Path where
  /-- How many slashes stand in front: none if the directory to start from is left open. -/
  slashes : Nat
  names : List String
deriving DecidableEq, Repr

namespace Path

/-- The root of the file system. -/
def root : Path := ⟨1, []⟩

/-- Whether the path starts from the root. -/
def isAbsolute (p : Path) : Bool := p.slashes != 0

def ofString (s : String) : Path :=
  let names := (Text.parts '/' s.toList).map String.ofList
  let slashes := (s.toList.takeWhile (· == '/')).length
  ⟨if slashes ≤ 2 then slashes else 1, names.filter fun n => n != "" && n != "."⟩

/-- The path as a text; `.` if it has no names. -/
def toText (p : Path) : String :=
  if p.isAbsolute then
    String.ofList (List.replicate p.slashes '/') ++ Text.joined "/" p.names
  else if p.names.isEmpty then "."
  else Text.joined "/" p.names

/-- The path `q` as seen from the directory `p`. -/
def join (p q : Path) : Path :=
  if q.isAbsolute then q else ⟨p.slashes, p.names ++ q.names⟩

/-- The path of an entry of the directory. -/
def child (p : Path) (name : String) : Path := ⟨p.slashes, p.names ++ [name]⟩

/-- The directory that holds the path; the root and the open directory hold themselves. -/
def parent (p : Path) : Path := ⟨p.slashes, p.names.dropLast⟩

/-- The last name. -/
def name (p : Path) : String := p.names.getLastD ""

/-- A name as its stem and its suffix. A suffix starts at the last point, and has a character on
either side of it. -/
def splitName (name : String) : String × String :=
  let ending := name.toList.reverse.takeWhile (· != '.')
  let stem := (name.toList.reverse.drop (ending.length + 1)).reverse
  if ending.isEmpty || stem.isEmpty then (name, "")
  else (String.ofList stem, String.ofList ('.' :: ending.reverse))

def stem (p : Path) : String := (splitName p.name).1

def suffix (p : Path) : String := (splitName p.name).2

example : (ofString "/a//b/./c.d.ts").toText = "/a/b/c.d.ts" := by decide
example : (ofString "//a/b").toText = "//a/b" := by decide
example : splitName "c.d.ts" = ("c.d", ".ts") := by decide
example : splitName ".ts" = (".ts", "") := by decide

end Path
end FlowPipeline
