import FlowPipeline.Json
import FlowPipeline.Value.Shown

/-! # How JSON is shown in the log -/

namespace FlowPipeline.Json

/-- Units as the text they are, between quotes. -/
def quotedUnits (us : List UInt16) : List Char := Text.quoted (Text.Utf16.decode us)

mutual

/-- The value in the notation for values of documents. -/
def shown : Json → List Char
  | .null => Scalar.null.quoted
  | .bool b => (Scalar.bool b).quoted
  | .int i => (Scalar.int i).quoted
  | .float x => (Scalar.float x).quoted
  | .text us => quotedUnits us
  | .list items => '[' :: shownItems items ++ [']']
  | .object members => '\x7b' :: shownMembers members ++ ['\x7d']

def shownItems : List Json → List Char
  | [] => []
  | [v] => shown v
  | v :: vs => shown v ++ ',' :: ' ' :: shownItems vs

def shownMembers : List (List UInt16 × Json) → List Char
  | [] => []
  | [(k, v)] => quotedUnits k ++ ':' :: ' ' :: shown v
  | (k, v) :: ms => quotedUnits k ++ ':' :: ' ' :: shown v ++ ',' :: ' ' :: shownMembers ms

end

end FlowPipeline.Json
