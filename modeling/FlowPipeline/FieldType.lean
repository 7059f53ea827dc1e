import FlowPipeline.Text.Blank

/-! # Types of model fields

A manifest names the type of a field by a tag, which may add `null` or `undefined` as alternatives.
-/

namespace FlowPipeline.FieldType

/-- The names of the types that a script has without any model. -/
def primitives : List String :=
  ["string", "number", "boolean", "bigint", "symbol", "undefined", "object", "null"]

/-- The tags that have a name of their own in scripts. -/
def scriptNames : List (String × String) := [
  ("boolean", "boolean"), ("bool", "boolean"), ("string", "string"), ("char", "string"),
  ("integer", "number"), ("int", "number"), ("number", "number"), ("date", "Date")]

/-- What follows an alternative at the start of the text: the bar, the word, and blanks anywhere
around them. -/
def afterAlternative? (word cs : List Char) : Option (List Char) :=
  match cs.dropWhile Text.isBlank with
  | '|' :: r => (Text.after? word (r.dropWhile Text.isBlank)).map (·.dropWhile Text.isBlank)
  | _ => none

/-- The text without the alternatives of the given name. -/
def dropAlternatives (word : List Char) : (fuel : Nat) → List Char → List Char
  | 0, cs => cs
  | _ + 1, [] => []
  | fuel + 1, c :: cs =>
    match afterAlternative? word (c :: cs) with
    | some r => dropAlternatives word fuel r
    | none => c :: dropAlternatives word fuel cs

/-- Whether the tag names `word` beside something else. -/
def mentions (word : String) (tag : List Char) : Bool :=
  Text.occursIn word.toList tag && tag != word.toList

/-- The type that a tag names in scripts. A tag that is not known names itself. -/
def ofTag (tag : String) : String :=
  let cs := Text.trimChars tag.toList
  let null := mentions "null" cs
  let undefined := mentions "undefined" cs
  let without (word : String) (cs : List Char) := dropAlternatives word.toList (cs.length + 1) cs
  let cs := if null then without "null" cs else cs
  let cs := if undefined then without "undefined" cs else cs
  let name := String.ofList cs
  (scriptNames.lookup name).getD name ++ (if null then " | null" else "") ++
    (if undefined then " | undefined" else "")

example : ofTag "integer | null" = "number | null" := by decide

end FlowPipeline.FieldType
