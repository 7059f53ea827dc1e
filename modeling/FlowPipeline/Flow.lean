import FlowPipeline.Log
import FlowPipeline.Model

/-! # Flows

A flow is a sync, which runs at a cadence and returns models, or an action. The flows of an
integration are its entries in the manifest.
-/

namespace FlowPipeline

/-- What a flow returns: a model with its fields. It is resolved if the manifest defines it or if it
is a primitive type. -/
structure Returned where
  name : String
  fields : List Field
  resolved : Bool
deriving DecidableEq, Repr

structure Flow where
  name : String
  type : String
  cadence : Option String
  trackDeletes : Bool
  autoStart : Bool
  returns : List String
  models : List Returned
  description : String
  scopes : List String
  attributes : Mapping

inductive FlowKind where
  | sync
  | action
deriving DecidableEq, Repr

def FlowKind.name : FlowKind → String
  | .sync => "sync"
  | .action => "action"

/-- The kind that the type of the flow names. -/
def Flow.kind? (f : Flow) : Option FlowKind :=
  if f.type = "sync" then some .sync else if f.type = "action" then some .action else none

def Flow.isAction (f : Flow) : Bool := f.kind? == some .action

/-- The names of models that the manifest does not define. -/
def Flow.unresolved (f : Flow) : List String :=
  (f.models.filter fun m => !m.resolved).map Returned.name

/-- The flows of one provider configuration. A flow that is no action counts as a sync. -/
structure Integration where
  key : String
  syncs : List Flow
  actions : List Flow
  provider : Option String

def Integration.flows (i : Integration) : List Flow := i.syncs ++ i.actions

namespace Flow

/-- The texts of a value: the one that it is, or the trimmed texts of its items. -/
def strings (v : Value) : Except ManifestError (List String) :=
  match v, v.items? with
  | .scalar .null, _ => .ok []
  | .scalar (.text s), _ => .ok ([Text.trim s].filter (· != ""))
  | .scalar (.bytes bs), _ => .ok (bs.map fun b => toString b.toNat)
  | _, some items => do
    let texts ← items.mapM Value.written
    return (texts.map Text.trim).filter (· != "")
  | v, none => do return [← v.written]

/-- The trimmed text of a value; nothing if that is empty. -/
def trimmed? : Value → Except ManifestError (Option String)
  | .scalar .null => .ok none
  | v => do return (some (Text.trim (← v.written))).filter (· != "")

def returnedOf (models : Mapping) : List String → Except ManifestError (List Returned)
  | [] => .ok []
  | name :: names => do
    let fields ← Model.fields? models name
    let resolved := fields.isSome || FieldType.primitives.contains name
    return ⟨name, fields.getD [], resolved⟩ :: (← returnedOf models names)

/-- The flow that a definition describes. -/
def ofEntries (name : String) (definition models : Mapping) : Except ManifestError Flow := do
  let returns ← strings (Mapping.get "returns" definition)
  let returned ← returnedOf models returns
  let metadata := ((Mapping.get "metadata" definition).mapping?).getD []
  let own (key : String) := Mapping.get key definition
  let described (key : String) := (own key).orElse (Mapping.get key metadata)
  return {
    name
    type := ← ((own "type").orElse (.text FlowKind.sync.name)).written
    cadence := ← trimmed? (own "runs")
    trackDeletes := (own "track_deletes").truthy
    autoStart := !(own "auto_start").isFalse
    returns
    models := returned
    description := ← ((described "description").orElse (.text "")).written
    scopes := ← strings (described "scopes")
    attributes := ((own "attributes").mapping?).getD [] }

end Flow

/-- Reading that may fail and that logs; what was logged before a failure stays. -/
abbrev Normalizing := ExceptT ManifestError (StateM Log)

namespace Normalizing

def ofExcept {α : Type} (r : Except ManifestError α) : Normalizing α := ExceptT.mk (pure r)

/-- The flow of an entry. A definition that is no mapping counts as empty. -/
def flow (name : String) (definition : Value) (models : Mapping) : Normalizing Flow := do
  let entries ←
    match definition, definition.mapping? with
    | _, some entries => pure entries
    | .scalar .null, none => pure []
    | _, none => do
      let warning := "Flow '" ++ name ++ "' is not a mapping; treating it as an empty definition."
      modifyGet fun log => ((), log ++ [(.warning, warning)])
      pure []
  ofExcept (Flow.ofEntries name entries models)

/-- Whether an entry names the provider of its integration. -/
def isProvider : Scalar × Value → Bool
  | (.text "provider", .scalar (.text _)) => true
  | _ => false

/-- The flows of the entries of an integration, and the names of all flows so far. -/
def flows (models : Mapping) : (seen : List String) → Mapping →
    Normalizing (List Flow × List String)
  | seen, [] => pure ([], seen)
  | seen, (k, v) :: es => do
    if isProvider (k, v) then flows models seen es
    else
      let name ← ofExcept k.written
      if seen.contains name then throw (.duplicate name)
      let f ← flow name v models
      let (fs, seen) ← flows models (name :: seen) es
      return (f :: fs, seen)

def integrations (models : Mapping) : (seen : List String) → Mapping →
    Normalizing (List Integration)
  | _, [] => pure []
  | seen, (k, v) :: es => do
    let entries ←
      match v, v.mapping? with
      | _, some entries => pure entries
      | .scalar .null, none => pure []
      | _, none => do throw (.integration (← ofExcept k.written))
    let (fs, seen) ← flows models seen entries
    let provider :=
      match Mapping.get "provider" entries with
      | .scalar (.text p) => some p
      | _ => none
    let key ← ofExcept k.written
    let i : Integration :=
      ⟨key, fs.filter fun f => !f.isAction, fs.filter Flow.isAction, provider⟩
    return i :: (← integrations models seen es)

end Normalizing

/-- The integrations of a manifest. No two flows of a manifest have the same name. -/
def Manifest.normalize (m : Manifest) : Normalizing (List Integration) :=
  Normalizing.integrations m.models [] m.integrations

namespace Integration

/-- The flow of a name, with the integration that has it. -/
def findFlow? (is : List Integration) (name : String) : Option (Integration × Flow) :=
  is.findSome? fun i => (i.flows.find? fun f => f.name == name).map fun f => (i, f)

/-- The resolved models that any flow returns, in the order of their first appearance. -/
def modelNames (is : List Integration) : List String :=
  ((is.flatMap Integration.flows).flatMap fun f =>
    (f.models.filter Returned.resolved).map Returned.name).foldl
      (fun names n => if names.contains n then names else names ++ [n]) []

end Integration
end FlowPipeline
