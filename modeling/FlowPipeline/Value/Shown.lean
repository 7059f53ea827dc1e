import FlowPipeline.Number.Decimal
import FlowPipeline.Text.Blank
import FlowPipeline.Text.Quoted
import FlowPipeline.Value

/-! # How a value is shown as text

A text on its own is shown as it is, and quoted inside a list or a mapping.
-/

namespace FlowPipeline

/-- Infinity and the undefined number have short names in texts. -/
def Binary64.shownSpelling : Spelling := ⟨"inf", "nan"⟩

namespace Moment

/-- The offset as the difference it stands for. -/
def quotedOffset (minutes : Int) : List Char :=
  if minutes = 0 then "datetime.timezone.utc".toList
  else
    let days := minutes / 1440
    let seconds := minutes % 1440 * 60
    "datetime.timezone(datetime.timedelta(".toList ++
      (if days = 0 then [] else "days=".toList ++ (toString days).toList ++ ", ".toList) ++
      "seconds=".toList ++ (toString seconds).toList ++ "))".toList

/-- The moment as the list of its parts; seconds and microseconds only as far as they are needed. -/
def quoted (m : Moment) : List Char :=
  let parts := [m.date.year, m.date.month, m.date.day, m.hour, m.minute] ++
    (if m.second = 0 ∧ m.microsecond = 0 then [] else [m.second]) ++
    (if m.microsecond = 0 then [] else [m.microsecond])
  "datetime.datetime(".toList ++ ", ".toList.intercalate (parts.map fun n => (toString n).toList) ++
    (match m.offset with
    | none => []
    | some o => ", tzinfo=".toList ++ quotedOffset o) ++ [')']

end Moment

namespace Scalar

/-- The scalar inside a list or a mapping. -/
def quoted : Scalar → List Char
  | .null => "None".toList
  | .bool b => if b then "True".toList else "False".toList
  | .int i => (toString i).toList
  | .float x => (x.render Binary64.shownSpelling).toList
  | .text s => Text.quoted s
  | .bytes bs => Text.quotedBytes bs
  | .date d =>
    "datetime.date(".toList ++
      ", ".toList.intercalate ([d.year, d.month, d.day].map fun n => (toString n).toList) ++ [')']
  | .moment m => m.quoted

/-- The scalar on its own. -/
def shown : Scalar → String
  | .text s => s
  | .date d => String.ofList d.render
  | .moment m => String.ofList (m.render ' ')
  | s => String.ofList s.quoted

end Scalar

namespace Value

/-- What is shown for a list or a mapping inside itself. -/
def ellipsis (isMap : Bool) : List Char :=
  if isMap then "\x7b...\x7d".toList else "[...]".toList

/-- What is shown for a collection inside itself. -/
def ellipsisOf : Value → List Char
  | .map _ => ellipsis true
  | .tuple _ => "(...)".toList
  | _ => ellipsis false

mutual

/-- The value inside a list or a mapping; the collections of the given numbers are around it. -/
def quoted (around : List Nat) : Value → List Char
  | .scalar s => s.quoted
  | .list items => '[' :: quotedItems around items ++ [']']
  | .tuple [v] => '(' :: quoted around v ++ [',', ')']
  | .tuple items => '(' :: quotedItems around items ++ [')']
  | .set [] => "set()".toList
  | .set items => '\x7b' :: ", ".toList.intercalate (items.map Scalar.quoted) ++ ['\x7d']
  | .map entries => '\x7b' :: quotedEntries around entries ++ ['\x7d']
  | .cyclic n v =>
    if around.contains n then ellipsisOf v else quoted (n :: around) v
  | .again _ isMap => ellipsis isMap

def quotedItems (around : List Nat) : List Value → List Char
  | [] => []
  | [v] => quoted around v
  | v :: vs => quoted around v ++ ',' :: ' ' :: quotedItems around vs

def quotedEntries (around : List Nat) : List (Scalar × Value) → List Char
  | [] => []
  | [(k, v)] => k.quoted ++ ':' :: ' ' :: quoted around v
  | (k, v) :: es =>
    k.quoted ++ ':' :: ' ' :: quoted around v ++ ',' :: ' ' :: quotedEntries around es

end

/-- The value on its own. -/
def shown : Value → String
  | .scalar s => s.shown
  | v => String.ofList (v.quoted [])

end Value
end FlowPipeline
