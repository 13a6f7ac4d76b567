import ChatTemplate.Datum
import ChatTemplate.Number.Shortest
import ChatTemplate.Text.Quoted

/-!
# Writing JSON

Code points beyond ASCII are written as they are. With an indent each item has a line of its own; an
indent below one still breaks the lines.
-/

namespace ChatTemplate.Datum

/-- A code point inside a JSON string. -/
def jsonChar (c : Codepoint) : List Codepoint :=
  if c == '"' || c == '\\' then ['\\', c]
  else if c == '\n' then ['\\', 'n']
  else if c == '\r' then ['\\', 'r']
  else if c == '\t' then ['\\', 't']
  else if c == '\x0C' then ['\\', 'f']
  else if c == '\x08' then ['\\', 'b']
  else if c.toNat < 0x20 then '\\' :: 'u' :: Text.hexDigits 4 c.toNat
  else [c]

def jsonString (s : Text) : List Codepoint :=
  let quote : Codepoint := '"'
  quote :: s.toList.flatMap jsonChar ++ [quote]

/-- The texts of the doubles that JSON has no digits for. -/
def jsonFloat (f : Float) : List Codepoint :=
  Text.toList (Double.text ⟨"NaN", "Infinity", "-Infinity"⟩ f)

/-- What stands between brackets and items: with a unit of indentation, a new line at the given
level. -/
def jsonBreak (unit : Option (List Codepoint)) (level : Nat) : List Codepoint :=
  match unit with
  | none => []
  | some u => '\n' :: (List.replicate level u).flatten

def jsonComma (unit : Option (List Codepoint)) (level : Nat) : List Codepoint :=
  ',' :: if unit.isNone then [' '] else jsonBreak unit level

/-- Items between brackets, on lines of their own at the level inside. -/
def jsonGroup (opening closing : Codepoint) (unit : Option (List Codepoint)) (level : Nat)
    (items : List (List Codepoint)) : List Codepoint :=
  match items with
  | [] => [opening, closing]
  | items =>
    opening :: jsonBreak unit (level + 1) ++
      (items.intersperse (jsonComma unit (level + 1))).flatten ++ jsonBreak unit level ++ [closing]

mutual

/-- The JSON text of a value without functions. -/
def json (unit : Option (List Codepoint)) (level : Nat) : Datum → List Codepoint
  | .undefined | .null | .function .. => Text.toList "null"
  | .bool b => Text.toList (if b then "true" else "false")
  | .int i => Text.toList (toString i)
  | .float f => jsonFloat f
  | .string s => jsonString s
  | .array items => jsonGroup '[' ']' unit level (jsonItems unit (level + 1) items)
  | .object slots => jsonGroup '\x7b' '\x7d' unit level (jsonSlots unit (level + 1) slots)

def jsonItems (unit : Option (List Codepoint)) (level : Nat) : List Datum → List (List Codepoint)
  | [] => []
  | d :: ds => json unit level d :: jsonItems unit level ds

def jsonSlots (unit : Option (List Codepoint)) (level : Nat) :
    List (Text × Datum) → List (List Codepoint)
  | [] => []
  | e :: es => jsonSlot unit level e :: jsonSlots unit level es

def jsonSlot (unit : Option (List Codepoint)) (level : Nat) : Text × Datum → List Codepoint
  | (k, d) => jsonString k ++ Text.toList ": " ++ json unit level d

end

mutual

def hasFunction : Datum → Bool
  | .function .. => true
  | .array items => anyHasFunction items
  | .object slots => anySlotHasFunction slots
  | _ => false

def anyHasFunction : List Datum → Bool
  | [] => false
  | d :: ds => hasFunction d || anyHasFunction ds

def anySlotHasFunction : List (Text × Datum) → Bool
  | [] => false
  | e :: es => slotHasFunction e || anySlotHasFunction es

def slotHasFunction : Text × Datum → Bool
  | (_, d) => hasFunction d

end

/-- The JSON text of a value, which may not hold a function; integers may have any number of digits. -/
def json? (indent : Option Int) (d : Datum) : Option Text :=
  if d.hasFunction then none
  else some (.ofList (d.json (indent.map fun n => List.replicate n.toNat (.ofChar ' ')) 0))

end ChatTemplate.Datum
