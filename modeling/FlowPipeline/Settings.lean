import FlowPipeline.Disk
import FlowPipeline.Host

/-! # Settings

The settings are found once, from what the caller wants, from the environment and from the files
that are there.
-/

namespace FlowPipeline

/-- What the caller wants. -/
structure Wishes where
  tag : String
  environment : Environment
  root : Path
  compilerOptions : Option Path
  /-- The path of declarations of the host; an empty one asks for none. -/
  hostTypes : Option String
  debug : Bool

structure Settings where
  address : String
  secretKey : Option String
  tag : String
  root : Path
  /-- Where compiled scripts go. -/
  output : Path
  compilerOptions : Option Path
  hostTypes : Option Path
  debug : Bool
deriving DecidableEq, Repr

inductive SettingsError where
  | noProject (path : String)
  | emptyTag
  | noHostTypes (path : String)
  /-- A path that cannot be looked up. -/
  | file (e : FileError)
deriving DecidableEq, Repr

namespace SettingsError

def message : SettingsError → String
  | .noProject path => "Project directory not found: " ++ path
  | .emptyTag => "Environment tag must not be empty."
  | .noHostTypes path => "Host type declarations not found: " ++ path
  | .file e => e.message

/-- Whether the error is one that a user is told of. -/
def isReported : SettingsError → Bool
  | .file _ => false
  | _ => true

end SettingsError

namespace Settings

/-- The variables of the environment that settings depend on. -/
def variableNames : List String := [
  "NANGO_HOSTPORT", "NANGO_SECRET_KEY", "NANGO_SECRET_KEY_PROD", "NANGO_SECRET_KEY_DEV",
  "NANGO_HOST_TYPES_PATH"]

/-- A path as seen from a directory; one from the root is left as it is. -/
def within (d : Disk) (root p : Path) : Path :=
  if p.isAbsolute then p else d.resolve (root.join p)

def has (d : Disk) (p : Path) : Except SettingsError Bool := (d.has p).mapError SettingsError.file

/-- The options file: the one that is wanted, or that of the project if it has one. -/
def compilerOptionsOf (d : Disk) (root : Path) : Option Path → Except SettingsError (Option Path)
  | some p => .ok (some (within d root p))
  | none => do
    let standard := root.child "tsconfig.json"
    return if ← has d standard then some standard else none

/-- The declarations of the host: the wanted ones, or those that the environment names. -/
def hostTypesOf (d : Disk) (root : Path) (w : Wishes) : Except SettingsError (Option Path) :=
  match (w.hostTypes.or (w.environment.lookup "NANGO_HOST_TYPES_PATH")).filter (· != "") with
  | none => .ok none
  | some text =>
    let p := within d root (Path.ofString text)
    do if ← has d p then return some p else throw (.noHostTypes p.toText)

def resolve (d : Disk) (w : Wishes) : Except SettingsError Settings := do
  let root := d.resolve w.root
  if !(← (d.isDir root).mapError SettingsError.file) then throw (.noProject root.toText)
  let tag := Text.trim w.tag
  if tag = "" then throw .emptyTag
  return {
    address := Host.address tag w.environment
    secretKey := Host.secretKey? tag w.environment
    tag
    root
    output := root.child "dist"
    compilerOptions := ← compilerOptionsOf d root w.compilerOptions
    hostTypes := ← hostTypesOf d root w
    debug := w.debug }

end Settings
end FlowPipeline
