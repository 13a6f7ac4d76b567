import ChatTemplate.Codepoint

/-! # Lines -/

namespace ChatTemplate.Text

/-- The code points that end a line. -/
def isLineBreak (c : Codepoint) : Bool :=
  let n := c.toNat
  (0x0A ≤ n && n ≤ 0x0D) || (0x1C ≤ n && n ≤ 0x1E) || n == 0x85 || n == 0x2028 || n == 0x2029

/-- The lines of a text without their ends; a carriage return and the newline after it are one end,
and nothing follows the last one. -/
def lines : List Codepoint → List (List Codepoint)
  | [] => []
  | c :: cs =>
    if c == '\r' && cs.head? == some (.ofChar '\n') then lines cs
    else if isLineBreak c then [] :: lines cs
    else match lines cs with
      | [] => [[c]]
      | l :: ls => (c :: l) :: ls

end ChatTemplate.Text
