import ChatTemplate.Eval.Basic

/-! # Binding names -/

namespace ChatTemplate

/-- What an assignment or a loop binds, once its names are known. -/
inductive Binder
  | one (name : String)
  | many (names : List String)
deriving DecidableEq, Repr

namespace Eval

/-- The name that an expression is, where one is needed for `place`. -/
def expectName (place : String) : Expr → Eval String
  | .name w => return w.text
  | e => fail (.nameExpected place e.label)

def binder : Target → Eval Binder
  | .name w => return .one w.text
  | .tuple items => return .many (← items.mapM (expectName "unpacking"))

def bindAll (scope : Scope) (names : List String) (items : List Value) : Eval Unit :=
  (names.zip items).forM fun (name, v) => bind scope name v

/-- Binds a value to one name, or the items of an array to as many names. -/
def bindTo (scope : Scope) (b : Binder) (v : Value) : Eval Unit :=
  match b, v with
  | .one name, v => bind scope name v
  | .many names, .array items =>
    if items.length < names.length then fail .tooFewItems
    else if names.length < items.length then fail .tooManyItems
    else bindAll scope names items
  | .many _, v => fail (.notUnpackable v.kind)

end Eval
end ChatTemplate
