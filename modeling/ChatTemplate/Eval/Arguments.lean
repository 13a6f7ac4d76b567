import ChatTemplate.Eval.Basic

/-! # Arguments of a call -/

namespace ChatTemplate

/-- The arguments of a call. Where arguments are counted, all the keywords together count as one
that stands last. -/
structure Args where
  positional : List Value
  keywords : Slots String Value

namespace Args

def none : Args := ⟨[], []⟩

def count (a : Args) : Nat := a.positional.length + (if a.keywords.isEmpty then 0 else 1)

/-- The kinds of the arguments that are counted. -/
def kinds (a : Args) : List ValueKind :=
  a.positional.map Value.kind ++ (if a.keywords.isEmpty then [] else [.keywords])

/-- The keywords as what an object holds. -/
def slots (a : Args) : Slots Text Value := a.keywords.map fun (k, v) => (.ofString k, v)

/-- The arguments as plain values: the keywords come last, as an object. -/
def values (a : Args) : Eval (List Value) := do
  if a.keywords.isEmpty then return a.positional
  else return a.positional ++ [← Eval.newObject a.slots]

def expectCount (a : Args) (method : String) (least most : Nat) : Eval Unit :=
  if least ≤ a.count && a.count ≤ most then return ()
  else Eval.fail (.arity method least most a.count)

/-- The arguments by the names of the parameters they are for. A keyword takes precedence over a
value given by position. -/
def pick (a : Args) (method : String) (params : List String) : Eval (Slots String Value) := do
  let n := a.positional.length
  if params.length < n then Eval.fail (.arity method 0 params.length n)
  match a.keywords.find? fun (k, _) => !params.contains k with
  | some (k, _) => Eval.fail (.unexpectedKeyword method k)
  | _ => return Slots.putAll (params.zip a.positional) a.keywords

end Args

namespace Eval

def asString (method : String) : Value → Eval Text
  | .string s => return s
  | v => fail (.argumentNotString method v.kind)

/-- A string, or nothing where the argument is missing, null or undefined. -/
def asString? (method : String) : Option Value → Eval (Option Text)
  | none | some .null | some .undefined => return none
  | some v => some <$> asString method v

def asInt (method : String) : Value → Eval Int
  | .int i => return i
  | v => fail (.argumentNotInt method v.kind)

/-- How many pieces an argument allows: any number where it is missing. -/
def asLimit (method : String) : Option Value → Eval Int
  | none => return -1
  | some v => asInt method v

/-- The largest number that an operation takes as a size. -/
def maxSize : Int := Nat.pow 2 63 - 1

/-- A number as a size; below zero it stands for no limit, here for `whole`. -/
def asSize (i : Int) (whole : Nat) : Eval Nat :=
  if i < -maxSize - 1 || maxSize < i then overflow (.count i)
  else return if i < 0 then whole else i.toNat

variable (ev : Evaluator)

/-- Evaluates the arguments of a call from left to right, adding them to `given`. -/
def args (scope : Scope) : List Arg → Args → Eval Args
  | [], given => return given
  | .positional e :: rest, given => do
    let v ← ev.expr e scope
    args scope rest { given with positional := given.positional ++ [v] }
  | .keyword w e :: rest, given => do
    let v ← ev.expr e scope
    args scope rest { given with keywords := given.keywords.put w.text v }
  | .spread e :: rest, given => do
    match ← ev.expr e scope with
    | .array items => args scope rest { given with positional := given.positional ++ items }
    | v => fail (.notUnpackable v.kind)

end Eval
end ChatTemplate
