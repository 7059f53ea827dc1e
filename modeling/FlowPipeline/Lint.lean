import FlowPipeline.Flow
import FlowPipeline.Script.Parse
import FlowPipeline.Text.Utf8

/-! # Linting scripts

A script works through calls of members of the object `nango`. Each such call must be awaited or
continued by `then` or `catch`; some are outdated, some are not for actions, and some must name a
model that the manifest has.
-/

namespace FlowPipeline

/-- The calls that the host knows. -/
inductive HostCall where
  | batchSend
  | batchSave
  | batchDelete
  | log
  | getFieldMapping
  | setFieldMapping
  | getMetadata
  | setMetadata
  | get
  | post
  | put
  | patch
  | delete
  | getConnection
  | setLastSyncDate
  | getEnvironmentVariables
  | triggerAction
deriving DecidableEq, Repr

namespace HostCall

/-- The calls by the names of the members. -/
def names : List (String × HostCall) := [
  ("batchSend", .batchSend), ("batchSave", .batchSave), ("batchDelete", .batchDelete),
  ("log", .log), ("getFieldMapping", .getFieldMapping), ("setFieldMapping", .setFieldMapping),
  ("getMetadata", .getMetadata), ("setMetadata", .setMetadata), ("get", .get), ("post", .post),
  ("put", .put), ("patch", .patch), ("delete", .delete), ("getConnection", .getConnection),
  ("setLastSyncDate", .setLastSyncDate), ("getEnvironmentVariables", .getEnvironmentVariables),
  ("triggerAction", .triggerAction)]

def ofName? (name : String) : Option HostCall := names.lookup name

/-- The call that should be made instead. -/
def replacement? : HostCall → Option String
  | .batchSend => some "batchSave"
  | .getFieldMapping => some "getMetadata"
  | .setFieldMapping => some "setMetadata"
  | _ => none

/-- Whether an action may not make the call. -/
def isForSyncs : HostCall → Bool
  | .batchSend | .batchSave | .batchDelete | .setLastSyncDate => true
  | _ => false

/-- Whether the last argument of the call names a model. -/
def namesModel : HostCall → Bool
  | .batchSave | .batchDelete => true
  | _ => false

end HostCall

namespace Lint

/-- A call of the host, with what is around it. -/
structure Site where
  call : HostCall
  /-- The name under which the call is made. -/
  name : String
  line : Nat
  /-- The last argument, if there is one. -/
  last : Option Script.Tree
  awaited : Bool
  continued : Bool

/-- What the trees around a tree say about the calls in it. -/
structure Scope where
  awaited : Bool
  continued : Bool

open Script (Tree)

/-- The call of the host that a callee names. -/
def hostCall? : Tree → Option (HostCall × String)
  | .member (.identifier "nango") (some name) => (HostCall.ofName? name).map fun c => (c, name)
  | _ => none

mutual

/-- The calls of the host in a tree, in the order of the text. -/
def sites (s : Scope) : Tree → List Site
  | .identifier _ => []
  | .literal _ => []
  | .member object name =>
    let continues := name = some "then" ∨ name = some "catch"
    sites ⟨s.awaited, s.continued || continues⟩ object
  | .call line callee types args =>
    let own := (hostCall? callee).map fun (call, name) =>
      (⟨call, name, line, args.getLast?, s.awaited, s.continued⟩ : Site)
    own.toList ++ sites s callee ++ sites s types ++ allSites s args
  | .await operand => sites ⟨true, s.continued⟩ operand
  | .function parts => allSites s parts
  | .group parts => allSites s parts

def allSites (s : Scope) : List Tree → List Site
  | [] => []
  | t :: ts => sites s t ++ allSites s ts

end

inductive Severity where
  | warning
  | error
deriving DecidableEq, Repr

def Severity.name : Severity → String
  | .warning => "warning"
  | .error => "error"

/-- What is found at a call. -/
inductive Finding where
  | deprecated (replacement : String)
  | disallowedInAction
  | missingAwait
  | unverifiedModel
  | invalidModel (model : String)
deriving DecidableEq, Repr

namespace Finding

def code : Finding → String
  | .deprecated _ => "deprecated_call"
  | .disallowedInAction => "disallowed_in_action"
  | .missingAwait => "missing_await"
  | .unverifiedModel => "unverified_model_reference"
  | .invalidModel _ => "invalid_model_reference"

/-- Only the wrong use of a call is an error. -/
def severity : Finding → Severity
  | .disallowedInAction | .invalidModel _ => .error
  | _ => .warning

end Finding

/-- A finding with its call and its line. -/
structure Diagnostic where
  finding : Finding
  call : String
  line : Nat
deriving DecidableEq, Repr

/-- The diagnostic in words, for the script of a label and the models of a manifest. -/
def Diagnostic.message (label : String) (models : List String) (d : Diagnostic) : String :=
  let call := "nango." ++ d.call ++ "()"
  let place := "\"" ++ label ++ ":" ++ toString d.line ++ "\""
  match d.finding with
  | .deprecated replacement =>
    call ++ " used at line " ++ toString d.line ++ " is deprecated. Use nango." ++ replacement ++
      "() instead."
  | .disallowedInAction =>
    call ++ " calls are not allowed in an action script. Please remove it at " ++ place ++ "."
  | .missingAwait =>
    call ++ " calls must be awaited in " ++ place ++
      ". Not awaiting can lead to unexpected results."
  | .unverifiedModel =>
    call ++ " at " ++ place ++
      " does not pass the model name as a string literal, so it cannot be checked."
  | .invalidModel model =>
    "\"" ++ model ++ "\" is not a valid model name. Please check " ++ place ++
      ". The possible model names are: " ++ Text.joined ", " models

/-- The findings at a call. -/
def Site.findings (isAction : Bool) (models : List String) (s : Site) : List Finding :=
  let model : List Finding :=
    match s.last with
    | some (.literal name) => if models.contains name then [] else [.invalidModel name]
    | _ => [.unverifiedModel]
  (s.call.replacement?.map Finding.deprecated).toList ++
    (if isAction && s.call.isForSyncs then [.disallowedInAction] else []) ++
    (if s.awaited || s.continued then [] else [.missingAwait]) ++
    (if s.call.namesModel then model else [])

/-- What linting a script has found. -/
structure Report where
  label : String
  models : List String
  diagnostics : List Diagnostic
deriving DecidableEq, Repr

namespace Report

def awaitsAll (r : Report) : Bool := r.diagnostics.all fun d => d.finding != .missingAwait

def errors (r : Report) : List Diagnostic :=
  r.diagnostics.filter fun d => d.finding.severity == .error

def warnings (r : Report) : List Diagnostic :=
  r.diagnostics.filter fun d => d.finding.severity == .warning

/-- Whether the script may be compiled; only errors are in the way. -/
def isEligible (r : Report) : Bool := r.errors.isEmpty

def message (r : Report) (d : Diagnostic) : String := d.message r.label r.models

def log (r : Report) : Log :=
  r.diagnostics.map fun d =>
    (match d.finding.severity with
    | .warning => .warning
    | .error => .error, r.message d)

end Report

/-- The message about a script that cannot be parsed. -/
def parseMessage (label : String) (line : Nat) : String :=
  "Failed to parse \"" ++ label ++ "\": syntax error at line " ++ toString line ++ "."

/-- Why a script cannot be linted. -/
inductive Failure where
  /-- It cannot be parsed; the line is that of the error. -/
  | malformed (line : Nat)
  /-- It holds half of a pair. -/
  | encoding (e : Text.Utf8.EncodeError)
deriving DecidableEq, Repr

/-- What there is to say about a script of a flow of the given type. -/
def lint (source type : String) (models : List String) (label : String) :
    Except Failure Report := do
  let _ ← (Text.Utf8.encoded source).mapError .encoding
  let t ← (Script.parse source).mapError .malformed
  let isAction := type = FlowKind.action.name
  return ⟨label, models, (sites ⟨false, false⟩ t).flatMap fun s =>
    (s.findings isAction models).map fun f => ⟨f, s.name, s.line⟩⟩

end Lint
end FlowPipeline
