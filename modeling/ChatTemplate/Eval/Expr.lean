import ChatTemplate.Eval.Calls
import ChatTemplate.Eval.Filters
import ChatTemplate.Eval.Members
import ChatTemplate.Eval.Operators

/-! # Evaluating expressions -/

namespace ChatTemplate.Eval
variable (host : Host) (ev : Evaluator)

/-- Applies the filter that an expression names: a name, or a call of one. -/
def filterBy (scope : Scope) (v : Value) : Expr → Eval Value
  | .name w => applyFilter host scope [] w.text [] v
  | .call (.name w) as => do
    let a ← args ev scope as Args.none
    applyFilter host scope a.keywords w.text a.positional v
  | .call callee _ => fail (.unknownFilter callee.label none)
  | e => fail (.unknownFilter e.label none)

/-- Evaluates the entries of an object from left to right, adding them to `slots`. -/
def entries (scope : Scope) : Slots Text Value → List (Expr × Expr) → Eval (Slots Text Value)
  | slots, [] => return slots
  | slots, (k, e) :: rest => do
    match ← ev.expr k scope with
    | .string name => entries scope (slots.put name (← ev.expr e scope)) rest
    | v => fail (.keyNotString v.kind)

/-- A bound of a slice, if there is one. -/
def bound (scope : Scope) : Option Expr → Eval (Option Int)
  | none => return none
  | some e => do sliceBound (← ev.expr e scope)

/-- An operator whose right operand is evaluated only where it decides, or one that needs both. -/
def operation (scope : Scope) (left : Expr) (op : String) (right : Expr) : Eval Value := do
  let v ← ev.expr left scope
  if op == "and" then
    if ← truthy v then ev.expr right scope else return v
  else if op == "or" then
    if ← truthy v then return v else ev.expr right scope
  else binary op v (← ev.expr right scope)

/-- Evaluates an expression; its own failures have no place yet. -/
def exprInner (e : Expr) (scope : Scope) : Eval Value := do
  match e with
  | .name w => return (← get).lookup scope w.text
  | .int w =>
    match Number.readInt? (Text.toList w.text) with
    | some i => return .int i
    | none => badValue (.numeral w.text)
  | .float w =>
    match Number.readFloat? (Text.toList w.text) with
    | some f => return .float f
    | none => badValue (.numeral w.text)
  | .string w => return .string w.text
  | .bool w => return .bool (w.text == "true" || w.text == "True")
  | .null _ => return .null
  | .array es | .tuple es => return .array (← es.mapM (ev.expr · scope))
  | .object es => newObject (← entries ev scope [] es)
  | .binary l op r => operation ev scope l op.text r
  | .unary op e =>
    let v ← ev.expr e scope
    if op.text == "not" then return .bool !(← truthy v) else fail (.unknownOperator op.text)
  | .member e w => lookupMember (← ev.expr e scope) (.string w.text)
  | .index e k =>
    let v ← ev.expr e scope
    lookupMember v (← ev.expr k scope)
  | .slice e a b c =>
    let v ← ev.expr e scope
    let start ← bound ev scope a
    let stop ← bound ev scope b
    let step ← bound ev scope c
    slice v start stop step
  | .call f as =>
    let a ← args ev scope as Args.none
    callValue ev host (← ev.expr f scope) a scope
  | .filter e f => filterBy host ev scope (← ev.expr e scope) f
  | .test e negated w =>
    let v ← ev.expr e scope
    let (known, test) ← findTest scope w.text
    return .bool ((← runTest host known test v []) != negated)
  | .select e t => if ← truthy (← ev.expr t scope) then ev.expr e scope else return .undefined
  | .ternary t y n => if ← truthy (← ev.expr t scope) then ev.expr y scope else ev.expr n scope

/-- Evaluates an expression. -/
def expr (e : Expr) (scope : Scope) : Eval Value :=
  tryCatch (exprInner host ev e scope) fun f => throw (f.locate e.pos?)

end ChatTemplate.Eval
