/-! # Places in scripts -/

namespace FlowPipeline.Script

/-- A place in a script, with the number of characters before it and the number of its line. -/
structure Place where
  rest : List Char
  index : Nat
  line : Nat

namespace Place

def start (source : String) : Place := ⟨source.toList, 0, 1⟩

def next (p : Place) : Place :=
  match p.rest with
  | [] => p
  | c :: r => ⟨r, p.index + 1, if c = '\n' then p.line + 1 else p.line⟩

def advance (p : Place) : Nat → Place
  | 0 => p
  | n + 1 => p.next.advance n

def dropWhile (f : Char → Bool) (p : Place) : Place :=
  p.advance (p.rest.takeWhile f).length

/-- The character at a place; a null character at the end. -/
def char (p : Place) : Char := p.rest.headD '\x00'

/-- The characters from one place up to a later one. -/
def upTo (p q : Place) : List Char := p.rest.take (q.index - p.index)

end Place
end FlowPipeline.Script
