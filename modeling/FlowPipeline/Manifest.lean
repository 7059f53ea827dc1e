import FlowPipeline.Value.Shown
import FlowPipeline.Yaml.Document

/-! # The manifest

A manifest is a YAML document with two sections: the flows of each integration, and the models that
flows return.
-/

namespace FlowPipeline

/-- The name of the file that holds the manifest. -/
def manifestName : String := "nango.yaml"

structure Manifest where
  integrations : Mapping
  models : Mapping
  text : String

/-- What is wrong with a manifest. -/
inductive ManifestError where
  | missing (path : String)
  | malformed
  /-- A scalar whose tag promises a value that it does not write. -/
  | scalar (e : Yaml.Error)
  | root
  | part (name : String)
  | integration (name : String)
  /-- Models that extend each other, the first one repeated at the end. -/
  | cycle (models : List String)
  | duplicate (flow : String)
  /-- An integer of too many digits where a text is needed. -/
  | long
  /-- A mapping that contains itself where its fields are needed. -/
  | endless
deriving DecidableEq, Repr

namespace ManifestError

def message : ManifestError → String
  | .missing path => "No " ++ manifestName ++ " manifest found at " ++ path
  | .malformed => "Failed to parse " ++ manifestName ++ ": " ++ Yaml.Error.malformed.message
  | .scalar e => e.message
  | .root => manifestName ++ " root must be a mapping."
  | .part name => "Manifest section '" ++ name ++ "' must be a mapping."
  | .integration name => "Integration '" ++ name ++ "' must be a mapping of flows."
  | .cycle models => "Model extension cycle detected: " ++ Text.joined " -> " models
  | .duplicate flow =>
    "The sync name " ++ flow ++ " is duplicated in the manifest. All sync names must be unique."
  | .long => LongInteger.message none
  | .endless => Yaml.Error.endless.message ++ " in comparison"

/-- Whether the error is one that a user is told of; other errors mean that the manifest holds what
it should not. -/
def isReported : ManifestError → Bool
  | .scalar _ | .long | .endless => false
  | _ => true

end ManifestError

namespace Scalar

/-- The text of a scalar. -/
def written (s : Scalar) : Except ManifestError String :=
  if s.isLong then .error .long else .ok s.shown

end Scalar

namespace Value

/-- The text of a value. -/
def written (v : Value) : Except ManifestError String :=
  if v.hasLong then .error .long else .ok v.shown

end Value

namespace Manifest

/-- The entries of the document that a text writes. -/
def rootOf (text : String) : Except ManifestError Mapping :=
  match Yaml.parse text with
  | .error .malformed => .error .malformed
  | .error e => .error (.scalar e)
  | .ok (.scalar .null) => .ok []
  | .ok v => v.mapping?.elim (.error .root) .ok

/-- The manifest that a text writes. -/
def parse (text : String) : Except ManifestError Manifest := do
  let root ← rootOf text
  let integrations := (Mapping.get "integrations" root).orElse (.map [])
  let models := (Mapping.get "models" root).orElse (.map [])
  match integrations.mapping?, models.mapping? with
  | some integrations, some models => return ⟨integrations, models, text⟩
  | none, _ => throw (.part "integrations")
  | some _, none => throw (.part "models")

end Manifest
end FlowPipeline
