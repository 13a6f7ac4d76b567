import ChatTemplate.Eval.Stmt
import ChatTemplate.Proofs.Heap.Filters

/-!
# Evaluation in a heap

`Interpreter.within` evaluates templates in a heap. All that it changes in place are lists and
dictionaries that were made for the purpose, and the objects whose members are assigned to.
-/

namespace ChatTemplate.Heap

section Definitions
variable (run : Interpreter) (host : Host)

/-! ### Blocks and names -/

/-- Runs statements one after the other, up to a signal, adding their texts to `before`. -/
def block (scope : Scope) (before : Text) : List Stmt → Run Flow
  | [] => return .text before
  | s :: ss => do
    match ← run.stmt s scope with
    | .text t => block scope (before ++ t) ss
    | .signal signal t => return .signal signal (before ++ t)

/-- The text of statements that no signal may leave. -/
def closedBlock (scope : Scope) (body : List Stmt) : Run Text := do
  match ← block run scope "" body with
  | .text t => return t
  | .signal signal _ => fail (.signalOutsideLoop signal)

def bindAll (scope : Scope) (names : List String) (xs : List Item) : Run Unit :=
  (names.zip xs).forM fun (name, x) => bind scope name x

/-- Binds a value to one name, or the items of an array to as many names. -/
def bindTo (scope : Scope) (b : Binder) (x : Item) : Run Unit := do
  match b, x with
  | .one name, x => bind scope name x
  | .many names, .array r =>
    let xs ← itemsOf r
    if xs.length < names.length then fail .tooFewItems
    else if names.length < xs.length then fail .tooManyItems
    else bindAll scope names xs
  | .many _, x => fail (.notUnpackable x.kind)

/-! ### Calls -/

/-- Binds the parameters of a macro in order; a default sees those before its own. -/
def bindParams (scope : Scope) (keywords : Slots String Item) : List Param → List Item → Run Unit
  | [], _ => return ()
  | p :: ps, positional => do
    let x ←
      match positional, keywords.lookup p.name, p.default with
      | x :: _, _, _ => pure x
      | [], some x, _ => pure x
      | [], none, some e => run.expr e scope
      | [], none, none => fail (.missingArgument p.name)
    bind scope p.name x
    bindParams scope keywords ps positional.tail

/-- Runs a macro in a new scope inside that of the call. -/
def callMacro (name : String) (params : List Param) (body : List Stmt) (c : Call) (scope : Scope) :
    Run Item := do
  let inner ← innerScope scope
  let own ← c.copy
  let positional ← listOf own.positional
  let keywords ← namedOf own.keywords
  if params.length < positional.length then
    fail (.macroArity name params.length positional.length)
  match keywords.names.find? fun k => !(params.map Param.name).contains k with
  | some k => fail (.macroKeyword name k)
  | none => pure ()
  bindParams run inner keywords params positional
  return .string (← closedBlock run inner body)

/-- Runs the body of a call block in a new scope inside that of the block. -/
def callCaller (params : List String) (body : List Stmt) (scope : Scope) (c : Call) :
    Run Item := do
  let inner ← innerScope scope
  let own ← c.copy
  let positional ← listOf own.positional
  let missing := List.replicate (params.length - positional.length) Item.undefined
  bindAll inner params (positional ++ missing)
  return .string (← closedBlock run inner body)

/-- Calls a function from the given scope. -/
def callFunction (f : Function) (c : Call) (scope : Scope) : Run Item :=
  match f with
  | .range => callRange c
  | .raiseException => callRaise c
  | .newNamespace => callNamespace c
  | .stringMethod s m => callStringMethod s m c
  | .objectMethod r m => callObjectMethod r m c
  | .defined name params body => callMacro run name params body c scope
  | .caller params body home => callCaller run params body home c
  | .host f => callHost host f c

def callValue (x : Item) (c : Call) (scope : Scope) : Run Item := do
  match x with
  | .function r => callFunction run host ((← get).store.function r) c scope
  | x => fail (.notCallable x.kind)

/-! ### Expressions -/

/-- Applies the filter that an expression names: a name, or a call of one. -/
def filterBy (scope : Scope) (x : Item) : Expr → Run Item
  | .name w => do applyFilter host scope 0 w.text (← Call.new) x
  | .call (.name w) as => do
    let c ← args run scope as
    applyFilter host scope (← listOf c.positional).length w.text c x
  | .call callee _ => fail (.unknownFilter callee.label none)
  | e => fail (.unknownFilter e.label none)

/-- Evaluates the entries of an object from left to right, adding them to a dictionary. -/
def entries (scope : Scope) (d : DictRef) : List (Expr × Expr) → Run Unit
  | [] => return ()
  | (k, e) :: rest => do
    match ← run.expr k scope with
    | .string name =>
      put d name (← run.expr e scope)
      entries scope d rest
    | x => fail (.keyNotString x.kind)

/-- A bound of a slice, if there is one. -/
def bound (scope : Scope) : Option Expr → Run (Option Int)
  | none => return none
  | some e => do look (Eval.sliceBound (← valueOf (← run.expr e scope)))

/-- An operator whose right operand is evaluated only where it decides, or one that needs both. -/
def operation (scope : Scope) (left : Expr) (op : String) (right : Expr) : Run Item := do
  let x ← run.expr left scope
  if op == "and" then
    if ← truthy x then run.expr right scope else return x
  else if op == "or" then
    if ← truthy x then return x else run.expr right scope
  else binary op x (← run.expr right scope)

/-- Evaluates an expression; its own failures have no place yet. -/
def exprInner (e : Expr) (scope : Scope) : Run Item := do
  match e with
  | .name w => lookup scope w.text
  | .int w =>
    match Number.readInt? (Text.toList w.text) with
    | some i => return .int i
    | none => escape (@Escape.badValue (.numeral w.text))
  | .float w =>
    match Number.readFloat? (Text.toList w.text) with
    | some f => return .float f
    | none => escape (@Escape.badValue (.numeral w.text))
  | .string w => return .string w.text
  | .bool w => return .bool (w.text == "true" || w.text == "True")
  | .null _ => return .null
  | .array es | .tuple es => arrayOf (← es.mapM (run.expr · scope))
  | .object es =>
    let d ← newDict []
    entries run scope d es
    newObject d
  | .binary l op r => operation run scope l op.text r
  | .unary op e =>
    let x ← run.expr e scope
    if op.text == "not" then return .bool !(← truthy x) else fail (.unknownOperator op.text)
  | .member e w => lookupMember (← run.expr e scope) (.string w.text)
  | .index e k =>
    let x ← run.expr e scope
    lookupMember x (← run.expr k scope)
  | .slice e a b c =>
    let x ← run.expr e scope
    let start ← bound run scope a
    let stop ← bound run scope b
    let step ← bound run scope c
    slice x start stop step
  | .call f as =>
    let c ← args run scope as
    callValue run host (← run.expr f scope) c scope
  | .filter e f => filterBy run host scope (← run.expr e scope) f
  | .test e negated w =>
    let x ← run.expr e scope
    let (known, test) ← look (Eval.findTest scope w.text)
    return .bool ((← runTest host known test x []) != negated)
  | .select e t => if ← truthy (← run.expr t scope) then run.expr e scope else return .undefined
  | .ternary t y n => if ← truthy (← run.expr t scope) then run.expr y scope else run.expr n scope

def expr (e : Expr) (scope : Scope) : Run Item :=
  tryCatch (exprInner run host e scope) fun f => throw (f.locate e.pos?)

/-! ### Statements -/

/-- The text that a value leaves where it stands as a statement. -/
def output (x : Item) : Run Flow := do
  match x with
  | .undefined | .null => return .text ""
  | x => return .text (← textOf x)

/-- Assigns a value to names, or to a member of an object. -/
def assign (scope : Scope) (target : Expr) (x : Item) : Run Unit := do
  match target.target? with
  | some t => bindTo scope (← look (Eval.binder t)) x
  | none =>
    match target with
    | .index .. | .slice .. => fail .computedTarget
    | .member e w =>
      match ← run.expr e scope with
      | .object r => putSlot r w.text x
      | o => fail (.targetNotObject o.kind)
    | e => fail (.badTarget e.label)

/-- A copy of the items that a loop runs over; those of an object are its names. -/
def loopItems (x : Item) : Run ListRef := do
  match x with
  | .array r => newList (← itemsOf r)
  | .object r => newList ((← slotsOf r).names.map .string)
  | x => fail (.notIterable x.kind)

/-- What `loop` is in the round of index `i`. -/
def loopSlots (xs : Array Item) (i : Nat) : Slots Text Item :=
  let n := xs.size
  [("index", .int (i + 1)), ("index0", .int i),
    ("revindex", .int (n - i)), ("revindex0", .int (n - i - 1)),
    ("first", .bool (i == 0)), ("last", .bool (i + 1 == n)), ("length", .int n),
    ("previtem", if i == 0 then .undefined else (xs[i - 1]?).getD .undefined),
    ("nextitem", (xs[i + 1]?).getD .undefined)]

/-- Does a loop run over an item, given its condition if there is one? -/
def passes (scope : Scope) (b : Binder) (test : Option Expr) (x : Item) : Run Bool := do
  match test with
  | none => return true
  | some e =>
    let inner ← innerScope scope
    bindTo inner b x
    truthy (← run.expr e inner)

/-- Runs the body of a loop once for each item from the one of index `i` on, adding the texts to
`before`. -/
def rounds (scope : Scope) (b : Binder) (body : List Stmt) (items : Array Item) :
    Nat → Text → List Item → Run Flow
  | _, before, [] => return .text before
  | i, before, x :: xs => do
    bind scope "loop" (← objectOf (loopSlots items i))
    bindTo scope b x
    match ← block run scope "" body with
    | .text t | .signal .continue t => rounds scope b body items (i + 1) (before ++ t) xs
    | .signal .break t => return .text (before ++ t)

def loop (scope : Scope) (target : Target) (iterable : Expr) (body default : List Stmt) :
    Run Flow := do
  let inner ← innerScope scope
  let (source, test) := Eval.loopHeader iterable
  let candidates ← loopItems (← run.expr source inner)
  let b ← look (Eval.binder target)
  let l ← newList []
  collect l (passes run inner b test) (← listOf candidates)
  let items ← listOf l
  if items.isEmpty then block run inner "" default
  else rounds run inner b body items.toArray 0 "" items

/-- Calls a function from a scope in which `caller` is the body of the block. -/
def callBlock (scope : Scope) (callee : Word) (as params : List Arg) (body : List Stmt) :
    Run Item := do
  let names ← look (params.mapM Eval.callerParam)
  let c ← args run scope as
  let f ← run.expr (.name callee) scope
  let inner ← innerScope scope
  bind inner "caller" (← newFunction (.caller names body scope))
  callValue run host f c inner

/-- Runs a statement; its own failures have no place yet. -/
def stmtInner (s : Stmt) (scope : Scope) : Run Flow := do
  match s with
  | .comment _ => return .text ""
  | .text w => return .text w.text
  | .output e => output (← run.expr e scope)
  | .choice test body alternate =>
    block run scope "" (if ← truthy (← run.expr test scope) then body else alternate)
  | .loop target iterable body default => loop run scope target iterable body default
  | .assign target e =>
    assign run scope target (← run.expr e scope)
    return .text ""
  | .capture target body =>
    assign run scope target (.string (← closedBlock run scope body))
    return .text ""
  | .defineMacro name params body =>
    let ps ← look (params.mapM Eval.param)
    bind scope name.text (← newFunction (.defined name.text ps body))
    return .text ""
  | .callBlock callee as params body =>
    output (← callBlock run host scope callee as (params.getD []) body)
  | .filterBlock f body =>
    let t ← closedBlock run scope body
    output (← filterBy run host scope (.string t) f)
  | .control signal _ => return .signal signal ""

def stmt (s : Stmt) (scope : Scope) : Run Flow :=
  tryCatch (stmtInner run host s scope) fun f => throw (f.locate s.pos?)

end Definitions

/-- Evaluates what nests at most `n` deep, macros and call blocks that run included. -/
def Interpreter.within (host : Host) : Nat → Interpreter
  | 0 => ⟨fun _ _ => throw .endless, fun _ _ => throw .endless⟩
  | n + 1 => ⟨Heap.expr (within host n) host, Heap.stmt (within host n) host⟩

end ChatTemplate.Heap
