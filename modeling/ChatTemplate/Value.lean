import ChatTemplate.Number
import ChatTemplate.Slots
import ChatTemplate.Stmt
import ChatTemplate.Text

/-!
# Values and what they refer to

Arrays are values through and through. Objects and functions are referred to: two values may share
an object, and each function is equal to itself alone. A scope is a chain of frames, the innermost
first.
-/

namespace ChatTemplate

abbrev ObjectRef := Nat
abbrev FunctionRef := Nat
abbrev FrameRef := Nat

inductive Value
  | undefined
  | null
  | bool (b : Bool)
  | int (i : Int)
  | float (f : Float)
  | string (s : Text)
  | array (items : List Value)
  | object (ref : ObjectRef)
  | function (ref : FunctionRef)

instance : Inhabited Value := ⟨.undefined⟩

/-- What a value is, for messages. The keywords of a call count as a kind where they stand in the
place of an argument. -/
inductive ValueKind
  | undefined
  | null
  | bool
  | int
  | float
  | string
  | array
  | object
  | function
  | keywords
deriving DecidableEq, Repr

def ValueKind.label : ValueKind → String
  | .undefined => "UndefinedValue"
  | .null => "NullValue"
  | .bool => "BooleanValue"
  | .int => "IntegerValue"
  | .float => "FloatValue"
  | .string => "StringValue"
  | .array => "ArrayValue"
  | .object => "ObjectValue"
  | .function => "FunctionValue"
  | .keywords => "KeywordArguments"

def Value.kind : Value → ValueKind
  | .undefined => .undefined
  | .null => .null
  | .bool _ => .bool
  | .int _ => .int
  | .float _ => .float
  | .string _ => .string
  | .array _ => .array
  | .object _ => .object
  | .function _ => .function

/-- The number that a value is; truth values are none. -/
def Value.number? : Value → Option Number
  | .int i => some (.int i)
  | .float f => some (.float f)
  | _ => none

def Value.ofNumber : Number → Value
  | .int i => .int i
  | .float f => .float f

/-- A string of the code points of a list. -/
def Value.ofPoints (cs : List Codepoint) : Value := .string (.ofList cs)

structure Scope where
  inner : FrameRef
  outer : List FrameRef
deriving DecidableEq, Repr, Inhabited

def Scope.chain (s : Scope) : List FrameRef := s.inner :: s.outer

/-! ### Functions -/

/-- A function that the host offers; the key tells it from others of its name. -/
structure HostFunction where
  key : String
  name : String
deriving DecidableEq, Repr

inductive StringMethod
  | upper
  | lower
  | title
  | capitalize
  | strip
  | lstrip
  | rstrip
  | startswith
  | endswith
  | split
  | replace
deriving DecidableEq, Repr

inductive ObjectMethod
  | get
  | items
  | keys
  | values
deriving DecidableEq, Repr

structure Param where
  name : String
  default : Option Expr

inductive Function
  | range
  | raiseException
  | newNamespace
  | stringMethod (receiver : Text) (method : StringMethod)
  | objectMethod (receiver : ObjectRef) (method : ObjectMethod)
  /-- A macro. Its body runs in a new frame inside the scope of the call. -/
  | defined (name : String) (params : List Param) (body : List Stmt)
  /-- The body of a call block. It runs in a new frame inside the scope of the block. -/
  | caller (params : List String) (body : List Stmt) (scope : Scope)
  | host (function : HostFunction)

instance : Inhabited Function := ⟨.range⟩

def StringMethod.name : StringMethod → String
  | .upper => "upper"
  | .lower => "lower"
  | .title => "title"
  | .capitalize => "capitalize"
  | .strip => "strip"
  | .lstrip => "lstrip"
  | .rstrip => "rstrip"
  | .startswith => "startswith"
  | .endswith => "endswith"
  | .split => "split"
  | .replace => "replace"

def StringMethod.ofName? (name : Text) : Option StringMethod :=
  [.upper, .lower, .title, .capitalize, .strip, .lstrip, .rstrip, .startswith, .endswith, .split,
    .replace].find? fun m => m.name == name

def ObjectMethod.name : ObjectMethod → String
  | .get => "get"
  | .items => "items"
  | .keys => "keys"
  | .values => "values"

def ObjectMethod.ofName? (name : Text) : Option ObjectMethod :=
  [.get, .items, .keys, .values].find? fun m => m.name == name

/-- The name that a function is shown by. -/
def Function.name : Function → String
  | .range => "range"
  | .raiseException => "raise_exception"
  | .newNamespace => "namespace"
  | .stringMethod _ m => s!"{ValueKind.string.label}.{m.name}"
  | .objectMethod _ m => s!"{ValueKind.object.label}.{m.name}"
  | .defined name _ _ => name
  | .caller .. => "caller"
  | .host f => f.name

end ChatTemplate
