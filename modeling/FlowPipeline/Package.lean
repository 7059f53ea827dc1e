import FlowPipeline.Build
import FlowPipeline.Cadence

/-! # Packages

A package is a flow with its compiled script, ready to be deployed. A flow that cannot be packaged
is left out; only a cadence that gives no schedule keeps all flows back, as schedules are not
deployed in part.
-/

namespace FlowPipeline

structure Package where
  /-- The key of the flow's integration. -/
  key : String
  flow : Flow
  version : String
  compiled : String
  source : Option String

/-- The names of the sync and of the action that are wanted. -/
structure Selection where
  sync : Option String
  action : Option String
deriving DecidableEq, Repr

namespace Selection

/-- Whether only some flows are wanted; an empty name asks for nothing. -/
def isPartial (s : Selection) : Bool := [s.sync, s.action].any fun n => (n.getD "") != ""

def flows (s : Selection) (i : Integration) : List Flow :=
  if s.isPartial then
    (i.syncs.filter fun f => s.sync == some f.name) ++
      i.actions.filter fun f => s.action == some f.name
  else i.flows

end Selection

/-- Why a flow cannot be packaged. -/
inductive Obstacle where
  | noCadence
  | cadence (cadence : String) (fault : Cadence.Fault)
  | undefinedModels (names : List String)
  | noScript (compiled : Path)
deriving DecidableEq, Repr

namespace Obstacle

/-- The obstacle to the flow of the given name, in words. -/
def message (flow : String) : Obstacle → String
  | .noCadence => Issue.noCadence.message flow ++ " Skipping..."
  | .cadence c f =>
    "The sync " ++ flow ++ " has an issue with the sync interval \"" ++ c ++ "\": " ++ f.message c
  | .undefinedModels names =>
    "The " ++ flow ++ " flow returns models not defined in the manifest: " ++
      Text.joined ", " names ++ ". Skipping..."
  | .noScript p =>
    "No integration file found for " ++ flow ++ " at " ++ p.toText ++ ". Skipping..."

/-- Whether the obstacle keeps all flows back. -/
def isFinal : Obstacle → Bool
  | .cadence _ _ => true
  | _ => false

/-- What is wrong with the cadence of a sync. -/
def ofCadence? (cadence : String) (now : Moment) : Option Obstacle :=
  if cadence = "" then some .noCadence
  else
    match Cadence.resolve cadence now with
    | .ok _ => none
    | .error e => some (.cadence cadence e)

/-- What is wrong with a flow, whatever its files. -/
def ofFlow? (f : Flow) (now : Moment) : Option Obstacle :=
  let cadence := if f.kind? = some .sync then ofCadence? (f.cadence.getD "") now else none
  cadence.or (if f.unresolved.isEmpty then none else some (.undefinedModels f.unresolved))

end Obstacle

namespace Package
open Work

/-- Packages a flow, if its script is compiled. -/
def ofScript (root output : Path) (version key : String) (f : Flow) :
    Work (Except Obstacle Package) := do
  let p := output.join (Path.ofString (f.name ++ ".js"))
  if !(← has p) then return .error (.noScript p)
  log .debug ("Integration file found for " ++ f.name ++ " at " ++ p.toText)
  let compiled ← readText p
  let q := root.join (Path.ofString (f.name ++ ".ts"))
  let source ← if ← has q then some <$> readText q else pure none
  return .ok ⟨key, f, version, compiled, source⟩

def ofFlow (root output : Path) (version : String) (now : Moment) (key : String) (f : Flow) :
    Work (Except Obstacle Package) := do
  if f.kind?.isNone then log .error ((Issue.type f.type).message f.name)
  match Obstacle.ofFlow? f now with
  | some o => return .error o
  | none => ofScript root output version key f

/-- Packages flows in order, each given with the key of its integration; nothing if there is an
obstacle to all of them. -/
def ofFlows (root output : Path) (version : String) (now : Moment) :
    List (String × Flow) → Work (Option (List Package))
  | [] => return some []
  | (key, f) :: fs => do
    match ← ofFlow root output version now key f with
    | .ok p => return (← ofFlows root output version now fs).map (p :: ·)
    | .error o =>
      log .error (o.message f.name)
      if o.isFinal then return none
      ofFlows root output version now fs

/-- Packages the wanted flows of integrations. -/
def all (root output : Path) (version : String) (wanted : Selection) (now : Moment)
    (is : List Integration) : Work (Option (List Package)) :=
  ofFlows root output version now (is.flatMap fun i => (wanted.flows i).map fun f => (i.key, f))

/-- The returned models of the flow with their fields, as JSON text. -/
def schema (p : Package) : String :=
  (Json.list (p.flow.models.map TypeDefinitions.returnedJson)).render .compact

/-- The package as it is sent, with its attributes given as JSON. -/
def payload (p : Package) (attributes : Json) : Json :=
  let f := p.flow
  let description := if f.description = "" then [] else [("description", Json.str f.description)]
  .obj [
    ("syncName", .str f.name), ("providerConfigKey", .str p.key),
    ("models", TypeDefinitions.texts f.returns), ("version", .str p.version),
    ("runs", .str (f.cadence.getD "")), ("track_deletes", .bool f.trackDeletes),
    ("auto_start", .bool f.autoStart), ("attributes", attributes),
    ("metadata", .obj (description ++ [("scopes", TypeDefinitions.texts f.scopes)])),
    ("type", .str f.type),
    ("fileBody",
      .obj [("js", .str p.compiled), ("ts", TypeDefinitions.textOrNull p.source)]),
    ("model_schema", .str p.schema)]

/-- The package as JSON, if its attributes have a JSON form. -/
def toJson (p : Package) : Except NotJson Json :=
  p.payload <$> (Value.map p.flow.attributes).toJson

end Package
end FlowPipeline
