import ChatTemplate.Text.CaseTable
import ChatTemplate.Text.CharRange

/-!
# Upper and lower case

The full case mappings: one code point may become several, and the lowercase sigma at the end of a
word has a form of its own.
-/

namespace ChatTemplate.Text

/-- The image of `c` under a table of rows; a character that no row holds is its own image. -/
def mapByRows (rows : List (Nat × Nat × Nat × Nat)) (c : Codepoint) : Codepoint :=
  match rows.find? fun (first, last, step, _) =>
      first ≤ c.toNat && c.toNat ≤ last && (c.toNat - first) % step == 0 with
  | some (first, _, _, target) => Codepoint.ofNat (target + (c.toNat - first))
  | none => c

def mapChar (words : List (Nat × List Nat)) (rows : List (Nat × Nat × Nat × Nat)) (c : Codepoint) :
    List Codepoint :=
  match words.lookup c.toNat with
  | some word => word.map Codepoint.ofNat
  | none => [mapByRows rows c]

def uppercaseChar (c : Codepoint) : List Codepoint := mapChar uppercaseWords uppercaseRows c

def lowercaseChar (c : Codepoint) : List Codepoint := mapChar lowercaseWords lowercaseRows c

/-- Is the next character of a text, the ignorable ones passed over, a cased one? -/
def nextIsCased (cs : List Codepoint) : Bool :=
  match cs.dropWhile (inRanges caseIgnorableRanges) with
  | c :: _ => inRanges casedRanges c
  | [] => false

def uppercase (cs : List Codepoint) : List Codepoint := cs.flatMap uppercaseChar

/-- A lowercase sigma; one that ends a word has a form of its own. -/
def lowercaseSigma (final : Bool) : Codepoint := if final then 'ς' else 'σ'

/-- The lowercase form of `cs`, which stands after the reverse of `before`. -/
def lowercaseAfter (before : List Codepoint) : List Codepoint → List Codepoint
  | [] => []
  | c :: cs =>
    (if c == 'Σ' then [lowercaseSigma (nextIsCased before && !nextIsCased cs)]
      else lowercaseChar c) ++ lowercaseAfter (c :: before) cs

def lowercase (cs : List Codepoint) : List Codepoint := lowercaseAfter [] cs

/-- The text with the character at its front in upper case. -/
def capitalize : List Codepoint → List Codepoint
  | [] => []
  | c :: cs => uppercaseChar c ++ cs

end ChatTemplate.Text
