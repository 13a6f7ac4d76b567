import ChatTemplate.Eval.Arguments
import ChatTemplate.Text.Case

/-! # Tests -/

namespace ChatTemplate.Eval

def testInt (test : String) : Value → Eval Int
  | .int i => return i
  | v => fail (.testOperand test v.kind)

/-- Is a value a string that `f` leaves as it is? -/
def isFixed (f : List Codepoint → List Codepoint) : Value → Bool
  | .string s => f s.toList == s.toList
  | _ => false

/-- Runs a built-in test; the host is to blame for a wrong number of arguments here. -/
def runBuiltinTest (test : BuiltinTest) (v : Value) (args : List Value) : Eval Bool := do
  match test, args with
  | .boolean, [] => return v.kind == .bool
  | .callable, [] => return v.kind == .function
  | .odd, [] => return (← testInt "odd" v) % 2 != 0
  | .even, [] => return (← testInt "even" v) % 2 == 0
  | .false, [] => return (v matches .bool false)
  | .true, [] => return (v matches .bool true)
  | .none, [] => return v.kind == .null
  | .string, [] => return v.kind == .string
  | .number, [] => return v.number?.isSome
  | .integer, [] => return v.kind == .int
  | .iterable, [] => return v.kind == .array || v.kind == .string || v.kind == .object
  | .mapping, [] => return v.kind == .object
  | .lower, [] => return isFixed Text.lowercase v
  | .upper, [] => return isFixed Text.uppercase v
  | .defined, [] => return v.kind != .undefined
  | .undefined, [] => return v.kind == .undefined
  | .equal, [w] => equal v w
  | .notEqual, [w] => return !(← equal v w)
  | _, _ => escape .badCall

/-- Runs a test that goes by `name`. Only a built-in test under a name of its own has its arguments
counted. -/
def runTest (host : Host) (name : String) (test : Test) (v : Value) (args : List Value) :
    Eval Bool := do
  match test with
  | .builtin t =>
    if BuiltinTest.ofName? name == some t && args.length != t.arity then
      fail (.testArity name t.arity args.length)
    else runBuiltinTest t v args
  | .host key =>
    match host.test key (← get) v args with
    | .ok b => return b
    | .error f => throw f

/-- The test that a scope knows by a name, and that name. -/
def findTest (scope : Scope) (name : Text) : Eval (String × Test) := do
  let st ← get
  match name.toString?.bind fun known => (st.test? scope known).map (known, ·) with
  | some found => return found
  | none => fail (.unknownTest name)

end ChatTemplate.Eval
