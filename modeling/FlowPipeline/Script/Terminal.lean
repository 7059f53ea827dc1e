import FlowPipeline.Script.Members

/-! # Terminals

What the tokens of scripts are. Words of the grammar are words like any other where the grammar does
not ask for them.
-/

namespace FlowPipeline.Script

inductive Terminal where
  /-- The end of a script. -/
  | finish
  | name
  /-- The line that names the interpreter of a script. -/
  | interpreter
  /-- What stands in a text between its quotes, without escapes. -/
  | doubleText | singleText
  | escape
  | comment
  | regexEnd | regexBody | regexFlags
  | number
  | privateName
  /-- The end of a line where a semicolon may be left out. -/
  | lineEnd
  | templateText
  /-- The question mark of a choice between two values. -/
  | ternaryMark
  /-- A comment as it is marked in pages. -/
  | markComment
  /-- The end of a line behind a signature without a body. -/
  | signatureEnd
  | thisWord | superWord | trueWord | falseWord | nullWord | undefinedWord | exportWord
  | defaultWord | typeWord | importWord | asWord | namespaceWord | typeofWord | fromWord | withWord
  | varWord | letWord | constWord | elseWord | ifWord | switchWord | forWord | awaitWord | inWord
  | ofWord | whileWord | doWord | tryWord | breakWord | continueWord | debuggerWord | returnWord
  | throwWord | caseWord | catchWord | finallyWord | yieldWord | classWord | asyncWord
  | functionWord | newWord | usingWord | instanceofWord | voidWord | deleteWord | targetWord
  | metaWord | staticWord | readonlyWord | getWord | setWord | declareWord | publicWord
  | privateWord | protectedWord | overrideWord | moduleWord | anyWord | numberWord | booleanWord
  | stringWord | symbolWord | objectWord | abstractWord | accessorWord | satisfiesWord | requireWord
  | extendsWord | implementsWord | globalWord | interfaceWord | enumWord | assertsWord | inferWord
  | isWord | keyofWord | uniqueWord | unknownWord | neverWord
  | star | equals | leftBrace | comma | rightBrace | bang | leftParen | semicolon | rightParen
  | colon | leftBracket | rightBracket | dot | arrow | questionDot | plusEquals | minusEquals
  | starEquals | slashEquals | percentEquals | caretEquals | andEquals | orEquals | shiftRightEquals
  | shiftAllRightEquals | shiftLeftEquals | powerEquals | andAndEquals | orOrEquals
  | questionsEquals | dots | andAnd | orOr | shiftRight | shiftAllRight | shiftLeft | ampersand
  | caret | bar | plus | minus | slash | percent | power | less | lessEquals | equalsEquals
  | identical | notEquals | notIdentical | greaterEquals | greater | questions | tilde | plusPlus
  | minusMinus | doubleQuote | singleQuote | backQuote | holeStart | atSign | question
  | minusQuestionColon | plusQuestionColon | questionColon | leftBraceBar | rightBraceBar
deriving DecidableEq, Repr

namespace Terminal

instance : Numbered Terminal := ⟨Terminal.ctorIdx⟩

/-- Terminals with the characters that they are spelled with. -/
def spelled (ts : List (String × Terminal)) : List (List Char × Terminal) :=
  ts.map fun (s, t) => (s.toList, t)

/-- The words of the grammar. -/
def words : List (List Char × Terminal) := spelled [
  ("this", thisWord), ("super", superWord), ("true", trueWord), ("false", falseWord),
  ("null", nullWord), ("undefined", undefinedWord), ("export", exportWord),
  ("default", defaultWord), ("type", typeWord), ("import", importWord), ("as", asWord),
  ("namespace", namespaceWord), ("typeof", typeofWord), ("from", fromWord), ("with", withWord),
  ("var", varWord), ("let", letWord), ("const", constWord), ("else", elseWord), ("if", ifWord),
  ("switch", switchWord), ("for", forWord), ("await", awaitWord), ("in", inWord), ("of", ofWord),
  ("while", whileWord), ("do", doWord), ("try", tryWord), ("break", breakWord),
  ("continue", continueWord), ("debugger", debuggerWord), ("return", returnWord),
  ("throw", throwWord), ("case", caseWord), ("catch", catchWord), ("finally", finallyWord),
  ("yield", yieldWord), ("class", classWord), ("async", asyncWord), ("function", functionWord),
  ("new", newWord), ("using", usingWord), ("instanceof", instanceofWord), ("void", voidWord),
  ("delete", deleteWord), ("target", targetWord), ("meta", metaWord), ("static", staticWord),
  ("readonly", readonlyWord), ("get", getWord), ("set", setWord), ("declare", declareWord),
  ("public", publicWord), ("private", privateWord), ("protected", protectedWord),
  ("override", overrideWord), ("module", moduleWord), ("any", anyWord), ("number", numberWord),
  ("boolean", booleanWord), ("string", stringWord), ("symbol", symbolWord),
  ("object", objectWord), ("abstract", abstractWord), ("accessor", accessorWord),
  ("satisfies", satisfiesWord), ("require", requireWord), ("extends", extendsWord),
  ("implements", implementsWord), ("global", globalWord), ("interface", interfaceWord),
  ("enum", enumWord), ("asserts", assertsWord), ("infer", inferWord), ("is", isWord),
  ("keyof", keyofWord), ("unique", uniqueWord), ("unknown", unknownWord), ("never", neverWord)]

/-- The signs of the grammar. -/
def signs : List (List Char × Terminal) := spelled [
  ("*", star), ("=", equals), ("\x7b", leftBrace), (",", comma), ("\x7d", rightBrace),
  ("!", bang), ("(", leftParen), (";", semicolon), (")", rightParen), (":", colon),
  ("[", leftBracket), ("]", rightBracket), (".", dot), ("=>", arrow), ("?.", questionDot),
  ("+=", plusEquals), ("-=", minusEquals), ("*=", starEquals), ("/=", slashEquals),
  ("%=", percentEquals), ("^=", caretEquals), ("&=", andEquals), ("|=", orEquals),
  (">>=", shiftRightEquals), (">>>=", shiftAllRightEquals), ("<<=", shiftLeftEquals),
  ("**=", powerEquals), ("&&=", andAndEquals), ("||=", orOrEquals), ("??=", questionsEquals),
  ("...", dots), ("&&", andAnd), ("||", orOr), (">>", shiftRight), (">>>", shiftAllRight),
  ("<<", shiftLeft), ("&", ampersand), ("^", caret), ("|", bar), ("+", plus), ("-", minus),
  ("/", slash), ("%", percent), ("**", power), ("<", less), ("<=", lessEquals),
  ("==", equalsEquals), ("===", identical), ("!=", notEquals), ("!==", notIdentical),
  (">=", greaterEquals), (">", greater), ("??", questions), ("~", tilde), ("++", plusPlus),
  ("--", minusMinus), ("\"", doubleQuote), ("'", singleQuote), ("\x60", backQuote),
  ("$\x7b", holeStart), ("@", atSign), ("?", question), ("-?:", minusQuestionColon),
  ("+?:", plusQuestionColon), ("?:", questionColon), ("\x7b|", leftBraceBar),
  ("|\x7d", rightBraceBar)]

/-- The terminals that have no spelling of their own. -/
def unspelled : List Terminal := [
  name, interpreter, doubleText, singleText, escape, comment, regexEnd, regexBody, regexFlags,
  Terminal.number, privateName, lineEnd, templateText, ternaryMark, markComment, signatureEnd]

/-- All terminals but the end of a script. -/
def all : List Terminal := unspelled ++ words.map Prod.snd ++ signs.map Prod.snd

/-- The terminals that can be told apart without knowing what may come next. -/
def contextFree : List Terminal :=
  [name, Terminal.number, privateName] ++ words.map Prod.snd ++ signs.map Prod.snd

/-- Whether a token may stand anywhere and means nothing. -/
def isComment : Terminal → Bool
  | comment | markComment => true
  | _ => false

end Terminal

abbrev Terminals := Members Terminal

end FlowPipeline.Script
