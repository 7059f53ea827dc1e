/-! # Blanks, trimming and splitting

A blank is a white-space character of the Unicode bidirectional classes WS, B and S or a space
separator. Texts are lists of characters here; the functions on `String` are at the end.
-/

namespace FlowPipeline.Text

/-- White space: the ASCII controls that separate, the space, and the Unicode spaces. -/
def isBlank (c : Char) : Bool :=
  let n := c.toNat
  (9 ≤ n && n ≤ 13) || (28 ≤ n && n ≤ 32) || n == 0x85 || n == 0xA0 || n == 0x1680 ||
    (0x2000 ≤ n && n ≤ 0x200A) || n == 0x2028 || n == 0x2029 || n == 0x202F || n == 0x205F ||
    n == 0x3000

theorem isBlank_of_isWhitespace {c : Char} (h : c.isWhitespace = true) : isBlank c = true := by
  simp only [Char.isWhitespace, Bool.or_eq_true, decide_eq_true_eq] at h
  rcases h with ((rfl | rfl) | rfl) | rfl <;> decide

/-- The text without the blanks at its end. -/
def dropBlankEnd (cs : List Char) : List Char :=
  (cs.reverse.dropWhile isBlank).reverse

/-- The text without the blanks at either end. -/
def trimChars (cs : List Char) : List Char :=
  dropBlankEnd (cs.dropWhile isBlank)

/-- The maximal runs of characters that are no blanks, in order. -/
def words : List Char → List (List Char)
  | [] => []
  | c :: cs =>
    if isBlank c then words cs
    else
      match cs with
      | [] => [[c]]
      | d :: _ =>
        if isBlank d then [c] :: words cs
        else
          match words cs with
          | w :: ws => (c :: w) :: ws
          | [] => [[c]]

/-- The parts between occurrences of `sep`; there is always one more part than occurrences. -/
def parts (sep : Char) : List Char → List (List Char)
  | [] => [[]]
  | c :: cs =>
    if c = sep then [] :: parts sep cs
    else
      match parts sep cs with
      | w :: ws => (c :: w) :: ws
      | [] => [[c]]

/-- Whether `needle` stands somewhere in the text. -/
def occursIn (needle : List Char) : List Char → Bool
  | [] => needle.isEmpty
  | c :: cs => needle.isPrefixOf (c :: cs) || occursIn needle cs

/-- What follows `lead` at the start of the text, if it stands there. -/
def after? : List Char → List Char → Option (List Char)
  | [], cs => some cs
  | _ :: _, [] => none
  | l :: ls, c :: cs => if l = c then after? ls cs else none

/-- The text without the blanks at either end. -/
def trim (s : String) : String :=
  String.ofList (trimChars s.toList)

/-- The words of the text, one space between any two. -/
def collapse (s : String) : String :=
  String.ofList ([' '].intercalate (words s.toList))

/-- The trimmed parts between commas, the empty ones left out. -/
def listed (s : String) : List String :=
  ((parts ',' s.toList).map trimChars).filterMap fun cs =>
    if cs.isEmpty then none else some (String.ofList cs)

/-- The text with its parts joined by `sep`. -/
def joined (sep : String) (ss : List String) : String :=
  String.ofList (sep.toList.intercalate (ss.map String.toList))

end FlowPipeline.Text
