/-! # Line ends

A text file may end its lines with a line feed, a carriage return, or both in this order. Reading a
file makes each of these one line feed.
-/

namespace FlowPipeline.Text

/-- The text with every line end written as one line feed. -/
def unixLines : List Char → List Char
  | '\r' :: '\n' :: cs => '\n' :: unixLines cs
  | '\r' :: cs => '\n' :: unixLines cs
  | c :: cs => c :: unixLines cs
  | [] => []

/-- The text with every line end written as one line feed. -/
def withUnixLines (s : String) : String :=
  String.ofList (unixLines s.toList)

end FlowPipeline.Text
