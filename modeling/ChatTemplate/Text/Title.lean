import ChatTemplate.Text.Blank
import ChatTemplate.Text.Case

/-! # Title case -/

namespace ChatTemplate.Text

/-- Capitalises the words of a text; the flag tells that a word may start here. -/
def capitalizeWords : Bool → List Codepoint → List Codepoint
  | _, [] => []
  | start, c :: cs =>
    if isBlank c then c :: capitalizeWords true cs
    else (if start then uppercaseChar c else [c]) ++ capitalizeWords false cs

def titleCase (cs : List Codepoint) : List Codepoint := capitalizeWords true (lowercase cs)

end ChatTemplate.Text
