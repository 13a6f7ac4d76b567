import ChatTemplate.Text.Blank

/-!
# The layout of a template

What is done to the text of a template before it is read: blanks around tags are removed where the
options or a trim dash (as in `{%-` and `-%}`) ask for it, and the tags that only mark a generated
passage are taken out. Every step deletes characters and changes none.
-/

namespace ChatTemplate

structure Layout where
  /-- Remove the blanks between the start of a line and a tag. -/
  stripLineStarts : Bool
  /-- Remove the newline right after a tag. -/
  trimLineEnds : Bool
deriving DecidableEq, Repr

namespace Layout
open Text

def dropLastNewline (cs : List Char) : List Char :=
  if cs.getLast? = some '\n' then cs.dropLast else cs

/-- A brace with one of these at its inner side is the edge of a tag. -/
def isTagEdge (c : Char) : Bool := c == '#' || c == '%' || c == '-'

/-- What is left of a text after the blanks at its front. -/
def dropBlanks (cs : List Char) : List Char := cs.dropWhile (isBlank ·)

def isSpaceOrTab (c : Char) : Bool := c == ' ' || c == '\t'

def startsTag : List Char → Bool
  | '{' :: c :: _ => isTagEdge c
  | _ => false

/-- Removes the spaces and tabs between the start of a line and a tag. The flag tells that nothing
else stood on the line so far. -/
def stripStarts : Bool → List Char → List Char
  | _, [] => []
  | atStart, c :: cs =>
    if atStart && isSpaceOrTab c && startsTag (cs.dropWhile isSpaceOrTab) then stripStarts true cs
    else c :: stripStarts (c == '\n') cs

/-- Removes each newline right after a tag; `left` characters of such an ending are to come. -/
def trimEnds : Nat → List Char → List Char
  | _, [] => []
  | left + 2, c :: cs => c :: trimEnds (left + 1) cs
  | 1, _ :: cs => trimEnds 0 cs
  | 0, c :: cs => c :: trimEnds (if isTagEdge c && ['}', '\n'].isPrefixOf cs then 2 else 0) cs

/-- Removes the dash of each marker that closes a tag of the given edge, and the blanks after the
marker. `left` characters of a marker are to be copied; the flag tells that nothing but blanks
stood after the last marker so far. -/
def dropAfter (edge : Char) : Nat → Bool → List Char → List Char
  | _, _, [] => []
  | left + 1, after, c :: cs => c :: dropAfter edge left after cs
  | 0, after, c :: cs =>
    if c == '-' && [edge, '}'].isPrefixOf cs then dropAfter edge 2 true cs
    else if after && isBlank c then dropAfter edge 0 true cs
    else c :: dropAfter edge 0 false cs

/-- The opening marker of a tag of the given edge. -/
def opener (edge : Char) : List Char := ['{', edge, '-']

/-- Removes the dash of each marker that opens a tag of the given edge, and the blanks before the
marker. `left` characters of a marker are to come. -/
def dropBefore (edge : Char) : Nat → List Char → List Char
  | _, [] => []
  | left + 2, c :: cs => c :: dropBefore edge (left + 1) cs
  | 1, _ :: cs => dropBefore edge 0 cs
  | 0, c :: cs =>
    if isBlank c && (opener edge).isPrefixOf (dropBlanks cs) then dropBefore edge 0 cs
    else c :: dropBefore edge (if (opener edge).isPrefixOf (c :: cs) then 2 else 0) cs

/-- What follows `word` at the front of a text. -/
def after? (word cs : List Char) : Option (List Char) :=
  if word.isPrefixOf cs then some (cs.drop word.length) else none

/-- What follows a tag that opens or closes a generated passage. -/
def afterGenerationTag? (cs : List Char) : Option (List Char) := do
  let cs ← after? ['{', '%'] cs
  let cs := dropBlanks cs
  let cs := (after? "end".toList cs).getD cs
  let cs ← after? "generation".toList cs
  after? ['%', '}'] (dropBlanks cs)

/-- Removes the tags that open or close a generated passage; `left` characters of one are to
come. -/
def dropGenerationTags : Nat → List Char → List Char
  | _, [] => []
  | left + 1, _ :: cs => dropGenerationTags left cs
  | 0, c :: cs =>
    match afterGenerationTag? (c :: cs) with
    | some rest => dropGenerationTags (cs.length - rest.length) cs
    | none => c :: dropGenerationTags 0 cs

/-- Obeys the trim dashes, one kind of marker after the other. -/
def dropTrimMarkers (cs : List Char) : List Char :=
  let cs := dropBefore '%' 0 (dropAfter '%' 0 false cs)
  let cs := dropBefore '{' 0 (dropAfter '}' 0 false cs)
  dropBefore '#' 0 (dropAfter '#' 0 false cs)

/-- The text of a template as it is read under the given options. -/
def normalize (layout : Layout) (source : List Char) : List Char :=
  let cs := dropLastNewline source
  let cs := if layout.stripLineStarts then stripStarts true cs else cs
  let cs := if layout.trimLineEnds then trimEnds 0 cs else cs
  dropGenerationTags 0 (dropTrimMarkers cs)

end Layout
end ChatTemplate
