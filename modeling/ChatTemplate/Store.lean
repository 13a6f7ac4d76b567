import ChatTemplate.Value

/-!
# The store

What values and scopes refer to. Frames, objects and functions are only ever added; a frame changes
by binding names, an object by assignment to a member, a function never.
-/

namespace ChatTemplate

/-- The tests that every scope knows. -/
inductive BuiltinTest
  | boolean
  | callable
  | odd
  | even
  | false
  | true
  | none
  | string
  | number
  | integer
  | iterable
  | mapping
  | lower
  | upper
  | defined
  | undefined
  | equal
  | notEqual
deriving DecidableEq, Repr

def BuiltinTest.names : List (String × BuiltinTest) := [
  ("boolean", .boolean), ("callable", .callable), ("odd", .odd), ("even", .even),
  ("false", .false), ("true", .true), ("none", .none), ("null", .none), ("string", .string),
  ("number", .number), ("integer", .integer), ("iterable", .iterable), ("mapping", .mapping),
  ("lower", .lower), ("upper", .upper), ("defined", .defined), ("undefined", .undefined),
  ("equalto", .equal), ("eq", .equal), ("ne", .notEqual)]

def BuiltinTest.ofName? (name : String) : Option BuiltinTest := BuiltinTest.names.lookup name

/-- The number of arguments after the operand. -/
def BuiltinTest.arity : BuiltinTest → Nat
  | .equal | .notEqual => 1
  | _ => 0

inductive Test
  | builtin (test : BuiltinTest)
  /-- A test that the host offers under a key. -/
  | host (key : String)
deriving DecidableEq, Repr

structure Frame where
  vars : Slots String Value
  /-- The tests added to this frame; frames inside it do not see them. -/
  tests : Slots String Test

structure Store where
  frames : Array Frame
  objects : Array (Slots Text Value)
  functions : Array Function

namespace Store

/-- The global functions and where they are kept. -/
def globals : List (String × Function) :=
  [("range", .range), ("raise_exception", .raiseException), ("namespace", .newNamespace)]

def globalVars : Slots String Value :=
  globals.zipIdx.map fun ((name, _), i) => (name, .function i)

def initial : Store := ⟨#[], #[], (globals.map Prod.snd).toArray⟩

instance : Inhabited Store := ⟨initial⟩

def frame (st : Store) (r : FrameRef) : Frame := st.frames[r]?.getD ⟨[], []⟩

def slots (st : Store) (r : ObjectRef) : Slots Text Value := st.objects[r]?.getD []

def function (st : Store) (r : FunctionRef) : Function := st.functions[r]?.getD default

/-- Adds a frame. -/
def pushFrame (st : Store) (vars : Slots String Value) : Store :=
  { st with frames := st.frames.push ⟨vars, []⟩ }

def pushObject (st : Store) (slots : Slots Text Value) : Store :=
  { st with objects := st.objects.push slots }

def pushFunction (st : Store) (f : Function) : Store :=
  { st with functions := st.functions.push f }

/-- Binds a name in one frame. -/
def bind (st : Store) (r : FrameRef) (name : String) (v : Value) : Store :=
  { st with frames := st.frames.modify r fun f => { f with vars := f.vars.put name v } }

def addTest (st : Store) (r : FrameRef) (name : String) (t : Test) : Store :=
  { st with frames := st.frames.modify r fun f => { f with tests := f.tests.put name t } }

def putSlot (st : Store) (r : ObjectRef) (name : Text) (v : Value) : Store :=
  { st with objects := st.objects.modify r fun s => s.put name v }

/-- The value of a name in the nearest frame of a chain that binds it. -/
def lookup? (st : Store) (chain : List FrameRef) (name : String) : Option Value :=
  chain.findSome? fun r => (st.frame r).vars.lookup name

def lookup (st : Store) (s : Scope) (name : String) : Value :=
  (st.lookup? s.chain name).getD .undefined

/-- The test that a scope knows by a name. -/
def test? (st : Store) (s : Scope) (name : String) : Option Test :=
  ((st.frame s.inner).tests.lookup name).or ((BuiltinTest.ofName? name).map .builtin)

/-- Does a value count as true? -/
def truthy (st : Store) : Value → Bool
  | .undefined | .null => false
  | .bool b => b
  | .int i => i != 0
  | .float f => f != 0
  | .string s => !s.isEmpty
  | .array items => !items.isEmpty
  | .object r => !(st.slots r).isEmpty
  | .function _ => true

end Store
end ChatTemplate
