import ChatTemplate.Codepoint

/-! # Blank characters -/

namespace ChatTemplate.Text

/-- White space of the character database, and the information separators `U+001C` to `U+001F`. -/
def isBlank (c : Codepoint) : Bool :=
  let n := c.toNat
  (0x09 ≤ n && n ≤ 0x0D) || (0x1C ≤ n && n ≤ 0x20) || n == 0x85 || n == 0xA0 || n == 0x1680 ||
    (0x2000 ≤ n && n ≤ 0x200A) || n == 0x2028 || n == 0x2029 || n == 0x202F || n == 0x205F ||
    n == 0x3000

end ChatTemplate.Text
