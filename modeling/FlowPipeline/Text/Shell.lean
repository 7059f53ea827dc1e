import FlowPipeline.Text.Blank

/-! # Shell words

A word with only letters, digits and a few harmless signs is written as it is; any other word stands
between single quotes, and a single quote in it between double ones.
-/

namespace FlowPipeline.Text

def isShellSafe (c : Char) : Bool :=
  c.isAlphanum || "_@%+=:,./-".toList.contains c

/-- One word of a command, as a shell reads it back. -/
def shellWord (s : String) : List Char :=
  if s.toList.isEmpty then ['\'', '\'']
  else if s.toList.all isShellSafe then s.toList
  else
    '\'' :: (s.toList.flatMap fun c => if c = '\'' then "'\"'\"'".toList else [c]) ++ ['\'']

/-- The command line of the given words. -/
def commandLine (words : List String) : String :=
  String.ofList ([' '].intercalate (words.map shellWord))

end FlowPipeline.Text
