import ChatTemplate.Eval.Expr

/-! # Running statements -/

namespace ChatTemplate.Eval
variable (host : Host) (ev : Evaluator)

/-- The text that a value leaves where it stands as a statement. -/
def output (v : Value) : Eval Flow := do
  match v with
  | .undefined | .null => return .text ""
  | v => return .text (← textOf v)

/-! ### Assignment -/

/-- Assigns a value to names, or to a member of an object. -/
def assign (scope : Scope) (target : Expr) (v : Value) : Eval Unit := do
  match target.target? with
  | some t => bindTo scope (← binder t) v
  | none =>
    match target with
    | .index .. | .slice .. => fail .computedTarget
    | .member e w =>
      match ← ev.expr e scope with
      | .object r => modify fun st => st.putSlot r w.text v
      | o => fail (.targetNotObject o.kind)
    | e => fail (.badTarget e.label)

/-! ### Loops -/

/-- The items that a loop runs over; those of an object are its names. -/
def loopItems : Value → Eval (List Value)
  | .array items => return items
  | .object r => return (← slotsOf r).names.map .string
  | v => fail (.notIterable v.kind)

/-- What `loop` is in the round of index `i`. -/
def loopSlots (items : Array Value) (i : Nat) : Slots Text Value :=
  let n := items.size
  [("index", .int (i + 1)), ("index0", .int i),
    ("revindex", .int (n - i)), ("revindex0", .int (n - i - 1)),
    ("first", .bool (i == 0)), ("last", .bool (i + 1 == n)), ("length", .int n),
    ("previtem", if i == 0 then .undefined else (items[i - 1]?).getD .undefined),
    ("nextitem", (items[i + 1]?).getD .undefined)]

/-- Does a loop run over an item, given its condition if there is one? -/
def passes (scope : Scope) (b : Binder) (test : Option Expr) (v : Value) : Eval Bool := do
  match test with
  | none => return true
  | some e =>
    let inner ← innerScope scope
    bindTo inner b v
    truthy (← ev.expr e inner)

/-- Runs the body of a loop once for each item from the one of index `i` on, adding the texts to
`before`. -/
def rounds (scope : Scope) (b : Binder) (body : List Stmt) (items : Array Value) :
    Nat → Text → List Value → Eval Flow
  | _, before, [] => return .text before
  | i, before, v :: vs => do
    bind scope "loop" (← newObject (loopSlots items i))
    bindTo scope b v
    match ← block ev scope "" body with
    | .text t | .signal .continue t => rounds scope b body items (i + 1) (before ++ t) vs
    | .signal .break t => return .text (before ++ t)

/-- What a loop runs over, and the condition of its items. -/
def loopHeader : Expr → Expr × Option Expr
  | .select e test => (e, some test)
  | e => (e, none)

def loop (scope : Scope) (target : Target) (iterable : Expr) (body default : List Stmt) :
    Eval Flow := do
  let inner ← innerScope scope
  let (source, test) := loopHeader iterable
  let candidates ← loopItems (← ev.expr source inner)
  let b ← binder target
  let items ← candidates.filterM (passes ev inner b test)
  if items.isEmpty then block ev inner "" default
  else rounds ev inner b body items.toArray 0 "" items

/-! ### Macros and call blocks -/

/-- A parameter with its default, if it has one. -/
def param : Arg → Eval Param
  | .positional (.name w) => return ⟨w.text, none⟩
  | .keyword w e => return ⟨w.text, some e⟩
  | a => fail (.badParameter a.label)

def callerParam : Arg → Eval String
  | .positional e => expectName "caller parameter" e
  | a => fail (.nameExpected "caller parameter" a.label)

/-- Calls a function from a scope in which `caller` is the body of the block. -/
def callBlock (scope : Scope) (callee : Word) (as params : List Arg) (body : List Stmt) :
    Eval Value := do
  let names ← params.mapM callerParam
  let a ← args ev scope as Args.none
  let f ← ev.expr (.name callee) scope
  let inner ← innerScope scope
  bind inner "caller" (← newFunction (.caller names body scope))
  callValue ev host f a inner

/-- Runs a statement; its own failures have no place yet. -/
def stmtInner (s : Stmt) (scope : Scope) : Eval Flow := do
  match s with
  | .comment _ => return .text ""
  | .text w => return .text w.text
  | .output e => output (← ev.expr e scope)
  | .choice test body alternate =>
    block ev scope "" (if ← truthy (← ev.expr test scope) then body else alternate)
  | .loop target iterable body default => loop ev scope target iterable body default
  | .assign target e =>
    assign ev scope target (← ev.expr e scope)
    return .text ""
  | .capture target body =>
    assign ev scope target (.string (← closedBlock ev scope body))
    return .text ""
  | .defineMacro name params body =>
    let ps ← params.mapM param
    bind scope name.text (← newFunction (.defined name.text ps body))
    return .text ""
  | .callBlock callee as params body =>
    output (← callBlock host ev scope callee as (params.getD []) body)
  | .filterBlock f body =>
    let t ← closedBlock ev scope body
    output (← filterBy host ev scope (.string t) f)
  | .control signal _ => return .signal signal ""

/-- Runs a statement. -/
def stmt (s : Stmt) (scope : Scope) : Eval Flow :=
  tryCatch (stmtInner host ev s scope) fun f => throw (f.locate s.pos?)

end Eval

namespace Evaluator

/-- Evaluates what nests at most `n` deep, macros and call blocks that run included. -/
def within (host : Host) : Nat → Evaluator
  | 0 => ⟨fun _ _ => throw .endless, fun _ _ => throw .endless⟩
  | n + 1 => ⟨Eval.expr host (within host n), Eval.stmt host (within host n)⟩

end Evaluator
end ChatTemplate
