/-
Sets of characters written as lists of code point ranges, both ends included. The character tables of
this library are those of Unicode 17.0.
-/
namespace WordMachine.Text

/-- Does one of the ranges hold the code point of `c`? -/
def inRanges (ranges : List (Nat × Nat)) (c : Char) : Bool :=
  ranges.any fun r => r.1 ≤ c.toNat && c.toNat ≤ r.2

end WordMachine.Text
