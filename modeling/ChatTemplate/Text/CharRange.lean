import ChatTemplate.Codepoint

/-! # Sets of code points given by ranges -/

namespace ChatTemplate.Text

/-- Does one of the ranges, both ends included, hold `c`? -/
def inRanges (ranges : List (Nat × Nat)) (c : Codepoint) : Bool :=
  ranges.any fun r => r.1 ≤ c.toNat && c.toNat ≤ r.2

end ChatTemplate.Text
