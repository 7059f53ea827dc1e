import FlowPipeline.Flow
import FlowPipeline.Json.OfValue
import FlowPipeline.Text.Capital

/-! # Type definitions for scripts

The file holds an interface for every model, the declarations of the host, and the flows of the
manifest as a constant.
-/

namespace FlowPipeline.TypeDefinitions

/-- The name of the file. -/
def fileName : String := "models.ts"

/-- The name of a model's interface: capitalised, without the `s` at its end. -/
def interfaceName (model : String) : String :=
  let cs := model.toList
  String.ofList (Text.capitalize (if cs.getLast? = some 's' then cs.dropLast else cs))

/-- The tag of a field's type. -/
def typeTag : Value → Except ManifestError String
  | .scalar .null => .ok ""
  | v => v.written

/-- The type literal of lines. -/
def literal (indent : String) (lines : List String) : String :=
  "\x7b\n" ++ Text.joined "\n" lines ++ "\n" ++ indent ++ "\x7d"

mutual

/-- The type of a field; a mapping is a type literal with a line for each of its fields. Around it
are collections that contain themselves. -/
def fieldType (around : List (Nat × Value)) (indent : String) : Value → Except ManifestError String
  | .map entries => literal indent <$> fieldLines around (indent ++ "  ") entries
  | .cyclic n (.map entries) =>
    literal indent <$>
      fieldLines ((n, .cyclic n (.map entries)) :: around) (indent ++ "  ") entries
  | .again _ true => .error .endless
  | v => FieldType.ofTag <$> typeTag (v.within around)

def fieldLines (around : List (Nat × Value)) (indent : String) :
    List (Scalar × Value) → Except ManifestError (List String)
  | [] => .ok []
  | (k, v) :: es => do
    let line := indent ++ (← k.written) ++ ": " ++ (← fieldType around indent v) ++ ";"
    return line :: (← fieldLines around indent es)

end

/-- The interface of a model. -/
def interface (model : String) (fields : Mapping) : Except ManifestError String := do
  let named ← ((Mapping.find? "__extends" fields).getD (.text "")).written
  let extended := (Text.listed named).map interfaceName
  let lines ← fieldLines [] "  " (fields.filter fun e => e.1 != Model.extendsKey)
  return "export interface " ++ interfaceName model ++
    (if extended.isEmpty then "" else " extends " ++ Text.joined ", " extended) ++
    " \x7b\n" ++ Text.joined "\n" lines ++ "\n\x7d\n"

/-- The interfaces of all models whose names do not start with an underscore. -/
def interfaces : Mapping → Except ManifestError (List String)
  | [] => .ok []
  | (k, v) :: es => do
    let name ← k.written
    if name.toList.head? = some '_' then interfaces es
    else
      let own ← interface name (v.mapping?.getD [])
      return own :: (← interfaces es)

def textOrNull : Option String → Json
  | some s => .str s
  | none => .null

def texts (ss : List String) : Json := .list (ss.map .str)

/-- A returned model with its fields. -/
def returnedJson (r : Returned) : Json :=
  .obj [
    ("name", .str r.name),
    ("fields", .list (r.fields.map fun f => .obj [("name", .str f.name), ("type", .str f.type)]))]

def flowJson (f : Flow) : Except NotJson Json := do
  return .obj [
    ("name", .str f.name), ("type", .str f.type), ("runs", textOrNull f.cadence),
    ("track_deletes", .bool f.trackDeletes), ("auto_start", .bool f.autoStart),
    ("attributes", ← (Value.map f.attributes).toJson), ("returns", texts f.returns),
    ("models", .list (f.models.map returnedJson)), ("description", .str f.description),
    ("scopes", texts f.scopes)]

def flowsJson : List Flow → Except NotJson (List Json)
  | [] => .ok []
  | f :: fs => do
    let j ← flowJson f
    return j :: (← flowsJson fs)

def integrationJson (i : Integration) : Except NotJson Json := do
  return .obj ([
    ("providerConfigKey", .str i.key), ("syncs", .list (← flowsJson i.syncs)),
    ("actions", .list (← flowsJson i.actions))] ++
    ((i.provider.filter (· != "")).map fun p => ("provider", Json.str p)).toList)

def integrationsJson : List Integration → Except NotJson (List Json)
  | [] => .ok []
  | i :: is => do
    let j ← integrationJson i
    return j :: (← integrationsJson is)

/-- Why there is no text. -/
inductive Failure where
  | manifest (e : ManifestError)
  | json (e : NotJson)
deriving DecidableEq, Repr

/-- The text of the file. -/
def render (models : Mapping) (integrations : List Integration) (hostTypes : Option String) :
    Except Failure String := do
  let own ← (interfaces models).mapError Failure.manifest
  let host :=
    match hostTypes.filter (· != "") with
    | none => []
    | some t => [if t.toList.getLast? = some '\n' then t else t ++ "\n"]
  let flows ← (integrationsJson integrations).mapError Failure.json
  return Text.joined "\n" ([Text.joined "\n" own] ++ host ++
    ["export const NangoFlows = " ++ Json.render (.indented 2) (.list flows) ++ " as const;\n"])

end FlowPipeline.TypeDefinitions
