import ChatTemplate.Datum.Json
import ChatTemplate.Eval.Methods
import ChatTemplate.Eval.Tests
import ChatTemplate.Number.Reading
import ChatTemplate.Slice
import ChatTemplate.Sorting
import ChatTemplate.Text.Lines

/-!
# Filters

Some filters take any operand; the others are those of the operand's kind.
-/

namespace ChatTemplate.Eval

/-! ### Any operand -/

/-- Is the width of an indentation one that could be built? -/
def expectWidth (n : Int) : Eval Unit :=
  if n < -maxSize - 1 || maxSize < n then overflow (.width n) else return ()

def toJson (v : Value) (indent : Option Int) : Eval Value := do
  let d ← datum v
  if d.hasFunction then fail (.noJson .function)
  match indent with
  | some n => if v.kind != .string then expectWidth n
  | none => pure ()
  match d.json? indent with
  | some s => return .string s
  | none => fail (.noJson .function)

def toJsonFilter (v : Value) (a : Args) : Eval Value := do
  let picked ← a.pick "tojson" ["indent"]
  match picked.lookup "indent" with
  | none | some .null | some .undefined => toJson v none
  | some (.int n) => toJson v (some n)
  | some w => fail (.jsonIndent w.kind)

def joinFilter (v : Value) (a : Args) : Eval Value := do
  let picked ← a.pick "join" ["d"]
  let sep : Text ←
    match picked.lookup "d" with
    | none => pure ""
    | some w => textOf w
  match v with
  | .array items => return .string (sep.intercalate (← items.mapM textOf))
  | .string s => return .string (sep.intercalate (s.toList.map fun c => .ofList [c]))
  | v => fail (.unknownFilter "join" (some v.kind))

/-- The integer that a text spells, or else the one below the decimal that it spells. -/
def readInteger? (s : Text) : Option Int :=
  match Number.readInt? s.toList with
  | some i => some i
  | none =>
    match (Number.readFloat? s.toList).map Double.ofFloat with
    | some (.finite s m e) => some (Double.floor s m e)
    | _ => none

def intFilter (v : Value) (a : Args) : Eval Value := do
  let picked ← a.pick "int" ["default"]
  let fallback := (picked.lookup "default").getD (.int 0)
  match v with
  | .int i => return .int i
  | .float f =>
    match Double.ofFloat f with
    | .finite s m e => return .int (Double.floor s m e)
    | .infinite _ => overflow .infinite
    | .nan => badValue .notANumber
  | .bool b => return .int (if b then 1 else 0)
  | .string s => return ((readInteger? s).map .int).getD fallback
  | _ => return fallback

def floatFilter (v : Value) (a : Args) : Eval Value := do
  let picked ← a.pick "float" ["default"]
  let fallback := (picked.lookup "default").getD (.float 0)
  match v with
  | .int i =>
    match Double.ofInt? i with
    | some f => return .float f
    | none => overflow (.toDouble i)
  | .float f => return .float f
  | .bool b => return .float (if b then 1 else 0)
  | .string s => return ((Number.readFloat? s.toList).map .float).getD fallback
  | _ => return fallback

def defaultFilter (v : Value) (a : Args) : Eval Value := do
  let picked ← a.pick "default" ["default_value", "boolean"]
  let fallback := (picked.lookup "default_value").getD (.string "")
  match v with
  | .undefined | .null => return fallback
  | v =>
    let falsy ← truthy ((picked.lookup "boolean").getD (.bool false))
    if falsy && !(← truthy v) then return fallback else return v

/-! ### Arrays -/

/-- Is a value less than another one of its sort? Numbers and strings can be compared, each with
its like. -/
def less (v w : Value) : Except Cause Bool :=
  match v.number?, w.number? with
  | some a, some b => .ok (a.compare? b == some .lt)
  | a, b =>
    match v, w with
    | .string s, .string t => .ok (s < t)
    | v, w =>
      if a.isNone && v.kind != .string then .error (.notComparable v.kind)
      else if b.isNone && w.kind != .string then .error (.notComparable w.kind)
      else .error (.mixedComparison v.kind w.kind)

def sortFilter (items : List Value) (a : Args) : Eval Value := do
  let picked ← a.pick "sort" ["reverse"]
  match Sorting.sort less items with
  | .error cause => fail cause
  | .ok sorted =>
    let reversed ← truthy ((picked.lookup "reverse").getD (.bool false))
    return .array (if reversed then sorted.reverse else sorted)

/-- Adds to `kept` the items that equal none of those before them. -/
def unique (kept : List Value) : List Value → Eval (List Value)
  | [] => return kept
  | v :: vs => do
    if ← finite (·.holds? kept v) then unique kept vs else unique (kept ++ [v]) vs

/-- The objects that the items of an array are. -/
def objectRefs? : List Value → Option (List ObjectRef)
  | [] => some []
  | .object r :: vs => (objectRefs? vs).map (r :: ·)
  | _ :: _ => none

/-- The names that the first two arguments give, and the arguments after them. -/
def attributeNames? (a : Args) : Option (Text × Option Text) :=
  match a.positional with
  | [.string attr] => if a.keywords.isEmpty then some (attr, none) else none
  | .string attr :: .string test :: _ => some (attr, some test)
  | _ => none

/-- The objects whose attribute passes, or fails where `keep` is false. With a test, the attribute
is what is tested; otherwise it has to be true. -/
def selectByAttribute (host : Host) (scope : Scope) (filter : String) (keep : Bool)
    (items : List Value) (a : Args) : Eval Value := do
  match objectRefs? items with
  | none => fail (.attributeOperand filter)
  | some refs =>
    match attributeNames? a with
    | none => fail (.attributeNames filter)
    | some (attr, testName) =>
      let attributeOf (r : ObjectRef) : Eval Value :=
        return ((← slotsOf r).lookup attr).getD .undefined
      let selected ←
        match testName with
        | none => refs.filterM fun r => return (← truthy (← attributeOf r)) == keep
        | some name =>
          let (known, test) ← findTest scope name
          let args ← Args.values { a with positional := a.positional.drop 2 }
          refs.filterM fun r => return (← runTest host known test (← attributeOf r) args) == keep
      return .array (selected.map .object)

/-- The attribute of each item, or the `default` keyword where an item does not have it. -/
def mapAttribute (attr : Value) (items : List Value) (a : Args) : Eval Value := do
  let others := a.keywords.names.filter fun k => k != "attribute" && k != "default"
  if !a.positional.isEmpty || !others.isEmpty then fail .mapExtraArguments
  match attr with
  | .string name =>
    let fallback := (a.keywords.lookup "default").getD .undefined
    return .array (← items.mapM fun
      | .object r => return ((← slotsOf r).lookup name).getD fallback
      | v => fail (.mapItem v.kind))
  | _ => fail .mapAttribute

/-! ### Strings -/

/-- Puts the indentation before each line but the first; `first` and `blank` widen that to the
first and to the empty ones. -/
def indentLines (indentation : List Codepoint) (first blank : Bool) (cs : List Codepoint) :
    List Codepoint :=
  match Text.lines (cs ++ [.ofChar '\n']) with
  | [] => []
  | l :: ls =>
    let rest := ls.map fun l => if blank || !l.isEmpty then indentation ++ l else l
    (if first then indentation ++ l else l) ++ (rest.map (Codepoint.ofChar '\n' :: ·)).flatten

def indentFilter (s : Text) (a : Args) : Eval Value := do
  let picked ← a.pick "indent" ["width", "first", "blank"]
  let indentation : List Codepoint ←
    match picked.lookup "width" with
    | none => pure (List.replicate 4 (.ofChar ' '))
    | some (.int n) => do
      expectWidth n
      pure (List.replicate n.toNat (.ofChar ' '))
    | some (.string s) => pure s.toList
    | some v => fail (.indentWidth v.kind)
  let blank ← truthy ((picked.lookup "blank").getD (.bool false))
  let first ← truthy ((picked.lookup "first").getD (.bool false))
  return .ofPoints (indentLines indentation first blank s.toList)

/-! ### By name -/

def arrayFilter (host : Host) (scope : Scope) (name : Text) (items : List Value) (a : Args) :
    Eval Value :=
  match name.toString? with
  | some "length" => return .int items.length
  | some "list" => return .array items
  | some "first" => return items.head?.getD .undefined
  | some "last" => return items.getLast?.getD .undefined
  | some "reverse" => return .array items.reverse
  | some "sort" => sortFilter items a
  | some "unique" => return .array (← unique [] items)
  | some "selectattr" => selectByAttribute host scope "selectattr" true items a
  | some "rejectattr" => selectByAttribute host scope "rejectattr" false items a
  | _ => fail (.unknownFilter name (some .array))

def stringFilter (name : Text) (s : Text) (a : Args) : Eval Value :=
  match name.toString? with
  | some "length" => return .int s.length
  | some "upper" => return .ofPoints (Text.uppercase s.toList)
  | some "lower" => return .ofPoints (Text.lowercase s.toList)
  | some "title" => return .ofPoints (Text.titleCase s.toList)
  | some "capitalize" => return .ofPoints (Text.capitalize s.toList)
  | some "trim" => callStringMethod s .strip a
  | some "replace" => callStringMethod s .replace a
  | some "indent" => indentFilter s a
  | _ => fail (.unknownFilter name (some .string))

def objectFilter (name : Text) (r : ObjectRef) : Eval Value :=
  match name.toString? with
  | some "length" => return .int (← slotsOf r).length
  | some "items" => return pairs (← slotsOf r)
  | _ => fail (.unknownFilter name (some .object))

def filterOfKind (host : Host) (scope : Scope) (name : Text) (v : Value) (a : Args) :
    Eval Value :=
  match v with
  | .array items => arrayFilter host scope name items a
  | .string s => stringFilter name s a
  | .object r => objectFilter name r
  | .int i => if name == "abs" then return .int i.natAbs else unknown
  | .float f => if name == "abs" then return .float f.abs else unknown
  | .bool b => if name == "bool" then return .bool b else unknown
  | _ => unknown
where
  unknown : Eval Value := fail (.unknownFilter name (some v.kind))

/-- Every filter but `map`, which applies others. -/
def plainFilter (host : Host) (scope : Scope) (name : Text) (v : Value) (a : Args) :
    Eval Value :=
  match name.toString? with
  | some "tojson" => toJsonFilter v a
  | some "join" => joinFilter v a
  | some "int" => intFilter v a
  | some "float" => floatFilter v a
  | some "string" => return .string (← textOf v)
  | some "default" => defaultFilter v a
  | _ => filterOfKind host scope name v a

/-- Applies a filter. Each use of `map` inside another one takes a positional argument as the name
of the filter that it applies. -/
def applyFilter (host : Host) (scope : Scope) (keywords : Slots String Value) (name : Text) :
    List Value → Value → Eval Value
  | positional, v =>
    match name.toString?, v with
    | some "map", .array items =>
      match keywords.lookup "attribute" with
      | some attr => mapAttribute attr items ⟨positional, keywords⟩
      | none =>
        match positional with
        | .string inner :: rest =>
          return .array (← items.mapM (applyFilter host scope keywords inner rest))
        | _ => fail .mapNeedsName
    | _, _ => plainFilter host scope name v ⟨positional, keywords⟩

end ChatTemplate.Eval
