import ChatTemplate.Eval.Arguments
import ChatTemplate.Text.Split
import ChatTemplate.Text.Strip
import ChatTemplate.Text.Title

/-! # Methods of strings and objects -/

namespace ChatTemplate.Eval
open Text

/-- Strips a string of the characters that the argument holds, or else of blanks. -/
def stripped (method : String) (how : (Codepoint → Bool) → List Codepoint → List Codepoint)
    (s : Text) (a : Args) : Eval Value := do
  let picked ← a.pick method ["chars"]
  match ← asString? method (picked.lookup "chars") with
  | none => return .ofPoints (how isBlank s.toList)
  | some chars => return .ofPoints (how chars.toList.contains s.toList)

/-- Does a string begin or end, as `fits` tells, with the argument or with one of its items? -/
def affixed (method : String) (fits : List Codepoint → List Codepoint → Bool) (s : Text)
    (a : Args) : Eval Value := do
  a.expectCount method 1 1
  match a.positional with
  | [.array items] =>
    let affixes ← items.mapM (asString method)
    return .bool (affixes.any fun x => fits x.toList s.toList)
  | [v] => return .bool (fits (← asString method v).toList s.toList)
  | _ => fail (.argumentNotString method .keywords)

def splitString (s : Text) (a : Args) : Eval Value := do
  let picked ← a.pick "split" ["sep", "maxsplit"]
  let limit ← asLimit "split" (picked.lookup "maxsplit")
  let sep ← asString? "split" (picked.lookup "sep")
  let n ← asSize limit s.length
  match sep with
  | none => return .array ((splitBlanks n s.toList).map .ofPoints)
  | some sep =>
    if sep.isEmpty then badValue .emptySeparator
    else return .array ((splitOn sep.toList n s.toList).map .ofPoints)

def replaceInString (s : Text) (a : Args) : Eval Value := do
  let picked ← a.pick "replace" ["old", "new", "count"]
  match picked.lookup "old", picked.lookup "new" with
  | some old, some new =>
    let limit ← asLimit "replace" (picked.lookup "count")
    let old ← asString "replace" old
    let new ← asString "replace" new
    let n ← asSize limit (s.length + 1)
    return .ofPoints (replace old.toList new.toList n s.toList)
  | _, _ => fail (.tooFewArguments "replace" 2)

/-- A method of a string that takes no arguments. -/
def mapped (m : StringMethod) (f : List Codepoint → List Codepoint) (s : Text) (a : Args) :
    Eval Value := do
  a.expectCount m.name 0 0
  return .ofPoints (f s.toList)

def callStringMethod (s : Text) (m : StringMethod) (a : Args) : Eval Value :=
  match m with
  | .upper => mapped m uppercase s a
  | .lower => mapped m lowercase s a
  | .title => mapped m titleCase s a
  | .capitalize => mapped m capitalize s a
  | .strip => stripped m.name strip s a
  | .lstrip => stripped m.name stripLeft s a
  | .rstrip => stripped m.name stripRight s a
  | .startswith => affixed m.name List.isPrefixOf s a
  | .endswith => affixed m.name List.isSuffixOf s a
  | .split => splitString s a
  | .replace => replaceInString s a

/-- An object's names with their values, as pairs. -/
def pairs (slots : Slots Text Value) : Value :=
  .array (slots.map fun (k, v) => .array [.string k, v])

def callObjectMethod (r : ObjectRef) (m : ObjectMethod) (a : Args) : Eval Value := do
  match m with
  | .get =>
    let picked ← a.pick m.name ["key", "default"]
    match picked.lookup "key" with
    | none => fail (.tooFewArguments m.name 1)
    | some key =>
      let name ← asString m.name key
      return ((← slotsOf r).lookup name).getD ((picked.lookup "default").getD .null)
  | .items =>
    a.expectCount m.name 0 0
    return pairs (← slotsOf r)
  | .keys =>
    a.expectCount m.name 0 0
    return .array ((← slotsOf r).names.map .string)
  | .values =>
    a.expectCount m.name 0 0
    return .array ((← slotsOf r).map Prod.snd)

end ChatTemplate.Eval
