import FlowPipeline.Calendar
import FlowPipeline.Number.LongInteger
import FlowPipeline.Text.Quoted

/-! # Tokens of a YAML text, and what may be wrong with one -/

namespace FlowPipeline.Yaml

/-- Why a text yields no value. -/
inductive Error where
  /-- The text is not well formed, or a node does not fit its tag. -/
  | malformed
  /-- A date or time that the calendar does not have. -/
  | calendar (e : CalendarError)
  /-- A scalar tagged as an integer that writes none in the given base. -/
  | integer (base : Nat) (text : String)
  /-- An integer in base ten of too many digits. -/
  | long (digits : Nat)
  /-- A scalar tagged as a number that has no digit at all. -/
  | empty
  /-- An escaped character that does not exist. -/
  | character
  /-- An escaped character whose number is no 32-bit integer. -/
  | wideCharacter
  /-- A scalar tagged as a float that writes none. -/
  | float (text : String)
  /-- A scalar tagged as a truth value that writes none. -/
  | bool (text : String)
  /-- A scalar tagged as a time that writes none. -/
  | timestamp
  /-- A mapping tagged as a time. -/
  | timeOfMapping
  /-- A mapping tagged as a scalar whose value is the mapping itself. -/
  | endless
deriving DecidableEq, Repr

/-- The complaint; a text is shown up to its two hundredth character where it is no integer. -/
def Error.message : Error → String
  | .malformed => "not a well-formed document"
  | .calendar e => e.message
  | .integer base text =>
    "invalid literal for int() with base " ++ toString base ++ ": " ++
      String.ofList ((Text.quoted text).take 200)
  | .long digits => LongInteger.message (some digits)
  | .empty => "string index out of range"
  | .character => "chr() arg not in range(0x110000)"
  | .wideCharacter => "Python int too large to convert to C int"
  | .float text => "could not convert string to float: " ++ String.ofList (Text.quoted text)
  | .bool text => String.ofList (Text.quoted text)
  | .timestamp => "'NoneType' object has no attribute 'groupdict'"
  | .timeOfMapping => "expected string or bytes-like object, got 'list'"
  | .endless => "maximum recursion depth exceeded"

/-- A token. The block tokens stand where indentation opens and closes a collection. -/
inductive Token where
  | version (major minor : Nat)
  | tagDirective (handle lead : String)
  | otherDirective
  | documentStart
  | documentEnd
  | streamEnd
  | blockSequenceStart
  | blockMappingStart
  | blockEnd
  | flowSequenceStart
  | flowSequenceEnd
  | flowMappingStart
  | flowMappingEnd
  | blockEntry
  | flowEntry
  | key
  | value
  | alias (name : String)
  | anchor (name : String)
  | tag (handle : Option String) (suffix : String)
  | scalar (text : String) (plain : Bool)
deriving DecidableEq, Repr

end FlowPipeline.Yaml
