import FlowPipeline.Text.Blank

/-! # Words of a command line

Options start with a hyphen. A value stands in the same word behind `=`, or is the next word,
whatever that looks like. All words behind `--` are plain words.
-/

namespace FlowPipeline.CommandLine

/-- What is wrong with a command line. -/
inductive UsageError where
  | noCommand
  | unknownCommand (name : String)
  | unknownOption (name : String)
  | noValue (option : String)
  | needlessValue (option : String)
  | noArgument (name : String)
  | extraArguments (words : List String)
deriving DecidableEq, Repr

def UsageError.message : UsageError → String
  | .noCommand => "Missing command."
  | .unknownCommand name => "No such command '" ++ name ++ "'."
  | .unknownOption name => "No such option: " ++ name
  | .noValue option => "Option '" ++ option ++ "' requires an argument."
  | .needlessValue option => "Option '" ++ option ++ "' does not take a value."
  | .noArgument name => "Missing argument '" ++ name ++ "'."
  | .extraArguments [word] => "Got unexpected extra argument (" ++ word ++ ")"
  | .extraArguments words =>
    "Got unexpected extra arguments (" ++ Text.joined " " words ++ ")"

/-- The options of a command, and how its words may be arranged. -/
structure Usage where
  flags : List String
  valued : List String
  /-- Whether options may follow plain words; if not, the first plain word ends the options. -/
  mixed : Bool

/-- A command line in parts. -/
structure Words where
  flags : List String
  /-- The values of options, the last ones first. -/
  values : List (String × String)
  plain : List String
deriving DecidableEq, Repr

namespace Words

def has (w : Words) (flag : String) : Bool := w.flags.contains flag

/-- The value of an option; the last one counts. -/
def value? (w : Words) (option : String) : Option String := w.values.lookup option

end Words

/-- The option that asks for help; every command has it. -/
def help : String := "--help"

/-- The name of an option, and the value behind `=` if there is one. -/
def splitWord (word : String) : String × Option String :=
  let name := word.toList.takeWhile (· != '=')
  match word.toList.drop name.length with
  | [] => (word, none)
  | _ :: value => (String.ofList name, some (String.ofList value))

/-- A word of one-letter options; only the one for help is known. -/
def shortOptions : List Char → Except UsageError Unit
  | [] => .ok ()
  | c :: cs => if c = 'h' then shortOptions cs else .error (.unknownOption (String.ofList ['-', c]))

namespace Usage

/-- Takes command line words apart, from what has been found so far. -/
def parse (u : Usage) (found : Words) : List String → Except UsageError Words
  | [] => .ok found
  | word :: words =>
    if word = "--" then .ok { found with plain := found.plain ++ words }
    else if "--".toList.isPrefixOf word.toList then
      match splitWord word with
      | (name, value) =>
        if u.valued.contains name then
          match value, words with
          | some v, words => parse u { found with values := (name, v) :: found.values } words
          | none, v :: words => parse u { found with values := (name, v) :: found.values } words
          | none, [] => .error (.noValue name)
        else if name = help || u.flags.contains name then
          if value.isSome then .error (.needlessValue name)
          else parse u { found with flags := name :: found.flags } words
        else .error (.unknownOption name)
    else if ['-'].isPrefixOf word.toList && word != "-" then
      match shortOptions (word.toList.drop 1) with
      | .ok _ => parse u { found with flags := help :: found.flags } words
      | .error e => .error e
    else if u.mixed then parse u { found with plain := found.plain ++ [word] } words
    else .ok { found with plain := found.plain ++ word :: words }

def words (u : Usage) (args : List String) : Except UsageError Words :=
  u.parse ⟨[], [], []⟩ args

end Usage

example :
    (Usage.mk ["--debug"] ["--env"] false).words ["--env", "--debug", "lint", "--debug"] =
      .ok ⟨[], [("--env", "--debug")], ["lint", "--debug"]⟩ := by
  rfl

end FlowPipeline.CommandLine
