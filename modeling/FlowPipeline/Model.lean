import FlowPipeline.FieldType
import FlowPipeline.Manifest
import FlowPipeline.Value.Shown

/-! # The fields of models

A model lists its fields. A field that is a mapping stands for its own fields, with paths for names.
The directive `__extends` stands for the fields of the models it names.
-/

namespace FlowPipeline

structure Field where
  name : String
  type : String
deriving DecidableEq, Repr

namespace Model

/-- The key that names the models to extend. -/
def extendsKey : Scalar := .text "__extends"

/-- The tag of a field's type: truth values in lower case, nothing for null. -/
def typeTag : Value → Except ManifestError String
  | .scalar (.bool b) => .ok (if b then "true" else "false")
  | .scalar .null => .ok ""
  | v => v.written

/-- The field that a value which is no mapping makes. -/
def plainField (path : String) (v : Value) : Except ManifestError Field := do
  return ⟨path, FieldType.ofTag (← typeTag v)⟩

mutual

/-- The fields of a field that lies within collections that contain themselves. -/
def nestedField (around : List (Nat × Value)) (path : String) :
    Value → Except ManifestError (List Field)
  | .map entries => nestedFields around path entries
  | .cyclic n (.map entries) => nestedFields ((n, .cyclic n (.map entries)) :: around) path entries
  | .again _ true => .error .endless
  | v => do return [← plainField path (v.within around)]

def nestedFields (around : List (Nat × Value)) (path : String) :
    List (Scalar × Value) → Except ManifestError (List Field)
  | [] => .ok []
  | (k, v) :: es => do
    let own ← nestedField around (path ++ "." ++ (← k.written)) v
    return own ++ (← nestedFields around path es)

end

/-- The name under which the models have `name`: the name itself, or without the `s` at its end. -/
def key? (models : Mapping) (name : String) : Option String :=
  let singular := String.ofList name.toList.dropLast
  if (Mapping.find? name models).isSome then some name
  else if name.toList.getLast? = some 's' ∧ (Mapping.find? singular models).isSome then
    some singular
  else none

/-- The fields of several models, one after another; those that are not defined have none. -/
def allFields (fields? : String → Except ManifestError (Option (List Field))) :
    List String → Except ManifestError (List Field)
  | [] => .ok []
  | name :: names => do
    let fs ← fields? name
    return fs.getD [] ++ (← allFields fields? names)

/-- The fields that the entries of a model stand for, in order. -/
def entryFields (fields? : String → Except ManifestError (Option (List Field))) :
    Mapping → Except ManifestError (List Field)
  | [] => .ok []
  | (k, v) :: es => do
    let fs ←
      if k = extendsKey then do allFields fields? (Text.listed (← v.written))
      else do nestedField [] (← k.written) v
    return fs ++ (← entryFields fields? es)

/-- The fields of a model on a path of models that extend each other, the last one first. A path of
distinct models is no longer than `depth`, so that what lies deeper is never asked for. -/
def fieldsOn (models : Mapping) : (depth : Nat) → (path : List String) → String →
    Except ManifestError (Option (List Field))
  | 0, _, _ => .ok none
  | depth + 1, path, name =>
    if FieldType.primitives.contains name then .ok none
    else
      match key? models name with
      | none => .ok none
      | some key =>
        if path.contains key then
          .error (.cycle ((path.takeWhile (· != key) ++ [key]).reverse ++ [key]))
        else
          match (Mapping.get key models).mapping? with
          | some entries => some <$> entryFields (fieldsOn models depth (key :: path)) entries
          | none => .ok (some [])

/-- The fields of a model; nothing if it is a primitive type or not defined. -/
def fields? (models : Mapping) (name : String) : Except ManifestError (Option (List Field)) :=
  fieldsOn models (models.length + 1) [] name

end Model
end FlowPipeline
