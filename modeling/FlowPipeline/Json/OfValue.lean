import FlowPipeline.Json
import FlowPipeline.Value

/-! # Documents as JSON

Times, bytes, sets and what contains itself have no JSON form. Keys become texts; distinct keys may
become equal ones.
-/

namespace FlowPipeline

/-- A type of values that JSON has no place for. -/
inductive ForeignType where
  | bytes
  | date
  | moment
  | set
deriving DecidableEq, Repr

def ForeignType.name : ForeignType → String
  | .bytes => "bytes"
  | .date => "date"
  | .moment => "datetime"
  | .set => "set"

/-- The name of the type together with the module that defines it. -/
def ForeignType.fullName : ForeignType → String
  | .date => "datetime.date"
  | .moment => "datetime.datetime"
  | t => t.name

/-- Why a document has no JSON form. -/
inductive NotJson where
  | value (t : ForeignType)
  | key (t : ForeignType)
  /-- An integer of too many digits. -/
  | long
  /-- A collection that contains itself. -/
  | cyclic
deriving DecidableEq, Repr

/-- The complaint; a key's type is named in full when the text is compact. -/
def NotJson.message (compact : Bool) : NotJson → String
  | .value t => "Object of type " ++ t.name ++ " is not JSON serializable"
  | .key t =>
    "keys must be str, int, float, bool or None, not " ++ if compact then t.fullName else t.name
  | .long => LongInteger.message none
  | .cyclic => "Circular reference detected"

namespace Scalar

def toJson : Scalar → Except NotJson Json
  | .null => .ok .null
  | .bool b => .ok (.bool b)
  | .int i => if LongInteger.isLong i then .error .long else .ok (.int i)
  | .float x => .ok (.float x)
  | .text s => .ok (.str s)
  | .bytes _ => .error (.value .bytes)
  | .date _ => .error (.value .date)
  | .moment _ => .error (.value .moment)

/-- The scalar as the name of a member. -/
def memberName : Scalar → Except NotJson (List UInt16)
  | .null => .ok (Text.Utf16.encode "null")
  | .bool b => .ok (Text.Utf16.encode (if b then "true" else "false"))
  | .int i =>
    if LongInteger.isLong i then .error .long else .ok (Text.Utf16.encode (toString i))
  | .float x => .ok (Text.Utf16.encode (x.render Json.spelling))
  | .text s => .ok (Text.Utf16.encode s)
  | .bytes _ => .error (.key .bytes)
  | .date _ => .error (.key .date)
  | .moment _ => .error (.key .moment)

end Scalar

namespace Value

mutual

/-- The JSON form of a document. -/
def toJson : Value → Except NotJson Json
  | .scalar s => s.toJson
  | .list items => Json.list <$> itemsToJson items
  | .tuple items => Json.list <$> itemsToJson items
  | .set _ => .error (.value .set)
  | .map entries => Json.object <$> entriesToJson entries
  | .cyclic _ v => toJson v
  | .again _ _ => .error .cyclic

def itemsToJson : List Value → Except NotJson (List Json)
  | [] => .ok []
  | v :: vs => do
    let j ← toJson v
    return j :: (← itemsToJson vs)

def entriesToJson : List (Scalar × Value) → Except NotJson (List (List UInt16 × Json))
  | [] => .ok []
  | (k, v) :: es => do
    let name ← k.memberName
    let j ← toJson v
    return (name, j) :: (← entriesToJson es)

end

end Value
end FlowPipeline
