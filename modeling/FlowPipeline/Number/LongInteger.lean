/-! # Long integers

Integers in base ten have at most 4300 digits in texts, both when they are read and when they are
written. Other bases know no limit.
-/

namespace FlowPipeline.LongInteger

/-- How many digits an integer may have. -/
def limit : Nat := 4300

/-- Whether the integer has more digits than may be written. -/
def isLong (i : Int) : Bool := Nat.pow 10 limit ≤ i.natAbs

/-- The complaint about an integer; the number of its digits is given if it was read. -/
def message (digits : Option Nat) : String :=
  "Exceeds the limit (" ++ toString limit ++ " digits) for integer string conversion" ++
    ((digits.map fun n => ": value has " ++ toString n ++ " digits").getD "") ++
    "; use sys.set_int_max_str_digits() to increase the limit"

end FlowPipeline.LongInteger
