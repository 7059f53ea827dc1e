import FlowPipeline.Json.Read

/-! # Options of the compiler

They are a member of a JSON document. The compiler gets them as they are.
-/

namespace FlowPipeline

/-- The options by their names. -/
abbrev CompilerOptions := List (List UInt16 × Json)

inductive CompilerOptionsError where
  | missing (path : String)
  | malformed (label : String) (failure : String)
  | document (label : String)
  | options (label : String)
  /-- Something in the document that is too large to be read. -/
  | limit (c : Json.Complaint)
deriving DecidableEq, Repr

namespace CompilerOptionsError

def message : CompilerOptionsError → String
  | .missing path => "Compiler options file not found: " ++ path
  | .malformed label failure => "Invalid compiler options in " ++ label ++ ": " ++ failure
  | .document label => "Compiler options document " ++ label ++ " must be an object."
  | .options label => "compilerOptions in " ++ label ++ " must be an object."
  | .limit c => c.message

/-- Whether the error is one that a user is told of. -/
def isReported : CompilerOptionsError → Bool
  | .limit _ => false
  | _ => true

end CompilerOptionsError

namespace CompilerOptions

/-- The options of a project that has none of its own. -/
def standard : CompilerOptions :=
  [("target", Json.str "ES2022"), ("module", .str "commonjs"), ("moduleResolution", .str "node"),
    ("strict", .bool true), ("esModuleInterop", .bool true), ("skipLibCheck", .bool true),
    ("forceConsistentCasingInFileNames", .bool true), ("useUnknownInCatchVariables", .bool false),
    ("experimentalDecorators", .bool true)].map fun (name, v) => (Text.Utf16.encode name, v)

/-- The options that a document holds. -/
def parse (label text : String) : Except CompilerOptionsError CompilerOptions :=
  match Json.read text.toList with
  | .error f =>
    .error (if f.complaint.isLimit then .limit f.complaint
      else .malformed label (f.message text.toList))
  | .ok (.object members) =>
    match (Json.object members).member? "compilerOptions" with
    | none => .ok []
    | some (.object options) => .ok options
    | some _ => .error (.options label)
  | .ok _ => .error (.document label)

end CompilerOptions
end FlowPipeline
