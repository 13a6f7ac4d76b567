import ChatTemplate.Text.Split

/-!
# Paths of files

Slashes part a path. It names the same file however many of them stand between two parts, and
parts that are a single dot name nothing.
-/

namespace ChatTemplate

structure Path where
  absolute : Bool
  parts : List String
deriving DecidableEq, Repr

namespace Path

/-- The path that a text stands for. No path holds a null character. -/
def ofString? (s : String) : Option Path :=
  let cs := s.toList
  if cs.contains '\x00' then none
  else
    let parts := (Text.splitOn ['/'] cs.length cs).map String.ofList
    some ⟨['/'].isPrefixOf cs, parts.filter fun part => part != "" && part != "."⟩

def text (p : Path) : String := (if p.absolute then "/" else "") ++ "/".intercalate p.parts

/-- How many bytes a path may have. -/
def maxSize : Nat := 4095

/-- How many bytes one part may have. -/
def maxPartSize : Nat := 255

/-- Looking for such a file fails, where it would otherwise find that there is none. Of the parts
only the first one after those that lead upwards counts: where it names nothing, no later one is
looked up. -/
def tooLong (p : Path) : Bool :=
  maxSize < p.text.utf8ByteSize ||
    (p.parts.find? (· != "..")).any (maxPartSize < ·.utf8ByteSize)

end Path
end ChatTemplate
