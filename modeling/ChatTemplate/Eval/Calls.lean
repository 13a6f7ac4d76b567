import ChatTemplate.Eval.Binding
import ChatTemplate.Eval.Block
import ChatTemplate.Eval.Convert
import ChatTemplate.Eval.Methods
import ChatTemplate.Slice

/-! # Calling functions -/

namespace ChatTemplate.Eval

/-! ### The global functions -/

def rangeArgument : Value → Eval Int
  | .int i => return i
  | v => fail (.rangeArgument v.kind)

/-- The integers from a first one, or zero, up to but not including a last one. -/
def callRange (a : Args) : Eval Value := do
  if a.count < 1 || 3 < a.count then fail .rangeArity
  let bounds ← a.positional.mapM rangeArgument
  if !a.keywords.isEmpty then fail (.rangeArgument .keywords)
  let (start, stop, step) :=
    match bounds with
    | [stop] => (0, stop, 1)
    | [start, stop] => (start, stop, 1)
    | [start, stop, step] => (start, stop, step)
    | _ => (0, 0, 1)
  if step == 0 then fail .rangeStep
  return .array ((Slice.progression start stop step).map .int)

def callRaise (a : Args) : Eval Value := do
  match ← a.values with
  | [] => fail (.raised "Template raised an exception")
  | v :: _ => fail (.raised (← textOf v))

/-- A new object of the keywords, or the very object that is the argument. -/
def callNamespace (a : Args) : Eval Value :=
  match a.positional with
  | [] => newObject a.slots
  | [.object r] => if a.keywords.isEmpty then return .object r else fail .namespaceArguments
  | _ => fail .namespaceArguments

def callHost (host : Host) (f : HostFunction) (a : Args) : Eval Value := do
  let positional ← a.positional.mapM toHost
  let keywords ← a.keywords.mapM fun (k, v) => return (k, ← toHost v)
  match host.call f positional keywords with
  | .ok h => ofHost h
  | .error f => throw f

/-! ### Macros -/

variable (ev : Evaluator)

/-- Binds the parameters of a macro in order; a default sees those before its own. -/
def bindParams (scope : Scope) (keywords : Slots String Value) : List Param → List Value → Eval Unit
  | [], _ => return ()
  | p :: ps, positional => do
    let v ←
      match positional, keywords.lookup p.name, p.default with
      | v :: _, _, _ => pure v
      | [], some v, _ => pure v
      | [], none, some e => ev.expr e scope
      | [], none, none => fail (.missingArgument p.name)
    bind scope p.name v
    bindParams scope keywords ps positional.tail

/-- Runs a macro in a new scope inside that of the call. -/
def callMacro (name : String) (params : List Param) (body : List Stmt) (a : Args)
    (scope : Scope) : Eval Value := do
  let inner ← innerScope scope
  if params.length < a.positional.length then
    fail (.macroArity name params.length a.positional.length)
  match a.keywords.names.find? fun k => !(params.map Param.name).contains k with
  | some k => fail (.macroKeyword name k)
  | none => pure ()
  bindParams ev inner a.keywords params a.positional
  return .string (← closedBlock ev inner body)

/-- Runs the body of a call block in a new scope inside that of the block. A parameter without a
value is undefined. -/
def callCaller (params : List String) (body : List Stmt) (scope : Scope) (a : Args) :
    Eval Value := do
  let inner ← innerScope scope
  let missing := List.replicate (params.length - a.positional.length) Value.undefined
  bindAll inner params (a.positional ++ missing)
  return .string (← closedBlock ev inner body)

/-- Calls a function from the given scope. -/
def callFunction (host : Host) (f : Function) (a : Args) (scope : Scope) : Eval Value :=
  match f with
  | .range => callRange a
  | .raiseException => callRaise a
  | .newNamespace => callNamespace a
  | .stringMethod s m => callStringMethod s m a
  | .objectMethod r m => callObjectMethod r m a
  | .defined name params body => callMacro ev name params body a scope
  | .caller params body home => callCaller ev params body home a
  | .host f => callHost host f a

def callValue (host : Host) (v : Value) (a : Args) (scope : Scope) : Eval Value := do
  match v with
  | .function r => callFunction ev host ((← get).function r) a scope
  | v => fail (.notCallable v.kind)

end ChatTemplate.Eval
