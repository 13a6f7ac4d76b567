import ChatTemplate.Eval.Basic
import ChatTemplate.Slice

/-! # Members, indices and slices -/

namespace ChatTemplate.Eval

/-- The member that a value has by its kind; there is none where the name is unknown. -/
def builtinMember (v : Value) (name : Text) : Eval Value :=
  match v with
  | .string s =>
    if name == "length" then return .int s.length
    else match StringMethod.ofName? name with
      | some m => newFunction (.stringMethod s m)
      | none => return .undefined
  | .array items => return if name == "length" then .int items.length else .undefined
  | .object r =>
    match ObjectMethod.ofName? name with
    | some m => newFunction (.objectMethod r m)
    | none => return .undefined
  | _ => return .undefined

/-- The element at an index, which counts from the end if it is below zero. -/
def element {α : Type} (kind : ValueKind) (items : List α) (i : Int) : Eval α :=
  let n := items.length
  let place := if i < 0 then i + n else i
  match if place < 0 then none else items[place.toNat]? with
  | some x => return x
  | none => do fail (.outOfBounds (← integerText i) kind n)

/-- `object[key]` -/
def lookupMember (object key : Value) : Eval Value := do
  match object, key with
  | .object r, .string name =>
    match (← slotsOf r).lookup name with
    | some v => return v
    | none => builtinMember object name
  | .array items, .int i => element .array items i
  | .string s, .int i => return .ofPoints [← element .string s.toList i]
  | v, .string name => builtinMember v name
  | .array _, k | .string _, k => fail (.propertyNotStringOrInt k.kind)
  | _, k => fail (.propertyNotString k.kind)

/-- A bound of a slice; undefined stands for a missing one. -/
def sliceBound : Value → Eval (Option Int)
  | .int i => return some i
  | .undefined => return none
  | v => fail (.sliceBound v.kind)

def slice (object : Value) (start stop step : Option Int) : Eval Value :=
  if step == some 0 then fail .sliceStepZero
  else match object with
    | .array items => return .array (Slice.pick items start stop (step.getD 1))
    | .string s => return .ofPoints (Slice.pick s.toList start stop (step.getD 1))
    | v => fail (.notSliceable v.kind)

end ChatTemplate.Eval
