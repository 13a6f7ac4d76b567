import ChatTemplate.Number.Double
import ChatTemplate.Text
import ChatTemplate.Text.Blank
import ChatTemplate.Text.Digit
import ChatTemplate.Text.Strip

/-!
# Reading numbers

Digits may be those of any script, with single underscores between them.
-/

namespace ChatTemplate.Number
open Text

/-- The digits at the front of a text and the rest; an underscore stands between two digits. -/
def takeDigits : List Codepoint → List Nat × List Codepoint
  | [] => ([], [])
  | [c] =>
    match digitValue? c with
    | some d => ([d], [])
    | none => ([], [c])
  | c :: c' :: cs =>
    match digitValue? c with
    | none => ([], c :: c' :: cs)
    | some d =>
      if c' == '_' && (cs.head?.bind digitValue?).isSome then
        let (ds, rest) := takeDigits cs
        (d :: ds, rest)
      else
        let (ds, rest) := takeDigits (c' :: cs)
        (d :: ds, rest)

def ofDigits (ds : List Nat) : Nat := ds.foldl (fun n d => 10 * n + d) 0

/-- Is there a minus, and what follows the optional sign? -/
def takeSign : List Codepoint → Bool × List Codepoint
  | [] => (false, [])
  | c :: cs => if c == '-' then (true, cs) else if c == '+' then (false, cs) else (false, c :: cs)

/-- The integer that a text spells; blanks may surround it. -/
def readInt? (cs : List Codepoint) : Option Int :=
  let (negative, cs) := takeSign (strip isBlank cs)
  match takeDigits cs with
  | ([], _) => none
  | (ds, []) => some (Double.signed negative (ofDigits ds))
  | _ => none

/-- The blanks that may surround a decimal; the information separators may not. -/
def isMargin (c : Codepoint) : Bool := isBlank c && !(0x1C ≤ c.toNat && c.toNat ≤ 0x1F)

def lowerAscii (c : Codepoint) : Codepoint :=
  if 0x41 ≤ c.toNat && c.toNat ≤ 0x5A then .ofNat (c.toNat + 32) else c

/-- The words for infinity and for no number. -/
def namedDouble? (negative : Bool) (cs : List Codepoint) : Option Float :=
  let word := Text.ofList (cs.map lowerAscii)
  if word == "inf" || word == "infinity" then some (Double.infinity negative)
  else if word == "nan" then some (0.0 / 0.0)
  else none

/-- The exponent that ends a decimal; nothing at all stands for zero. -/
def readExponent? (cs : List Codepoint) : Option Int :=
  match cs with
  | [] => some 0
  | c :: cs =>
    if lowerAscii c == 'e' then
      let (negative, cs) := takeSign cs
      match takeDigits cs with
      | ([], _) => none
      | (ds, []) => some (Double.signed negative (ofDigits ds))
      | _ => none
    else none

/-- The double nearest to the decimal that a text spells; blanks may surround it. -/
def readFloat? (cs : List Codepoint) : Option Float :=
  let (negative, cs) := takeSign (strip isMargin cs)
  let (whole, rest) := takeDigits cs
  let (fraction, rest) :=
    match rest with
    | c :: rest => if c == '.' then takeDigits rest else ([], c :: rest)
    | [] => ([], [])
  if whole.isEmpty && fraction.isEmpty then namedDouble? negative cs
  else
    (readExponent? rest).map fun e =>
      Double.ofDecimal negative (ofDigits (whole ++ fraction)) (e - fraction.length)

end ChatTemplate.Number
