import ChatTemplate.Text.Printable

/-!
# Quoted text

A text between quotes, with what cannot be printed escaped. The quotes are double ones where the
text holds single ones and no double one.
-/

namespace ChatTemplate.Text

/-- The last `places` hexadecimal digits of a number. -/
def hexDigits : Nat → Nat → List Codepoint
  | 0, _ => []
  | places + 1, n => hexDigits places (n / 16) ++ [.ofChar (Nat.digitChar (n % 16))]

/-- A code point between quotes of the given kind. -/
def quotedChar (quote c : Codepoint) : List Codepoint :=
  let n := c.toNat
  if c == quote || c == '\\' then ['\\', c]
  else if c == '\t' then ['\\', 't']
  else if c == '\n' then ['\\', 'n']
  else if c == '\r' then ['\\', 'r']
  else if isPrintable c then [c]
  else if n < 0x100 then '\\' :: 'x' :: hexDigits 2 n
  else if n < 0x10000 then '\\' :: 'u' :: hexDigits 4 n
  else '\\' :: 'U' :: hexDigits 8 n

def quoteFor (cs : List Codepoint) : Codepoint :=
  if cs.contains '\'' && !cs.contains '"' then '"' else '\''

def quoted (cs : List Codepoint) : List Codepoint :=
  let quote := quoteFor cs
  quote :: cs.flatMap (quotedChar quote) ++ [quote]

end ChatTemplate.Text
