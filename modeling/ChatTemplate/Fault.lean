import ChatTemplate.ErrorReport
import ChatTemplate.HostValue

/-! # Why a rendering fails -/

namespace ChatTemplate

/-- The causes of the errors that a running template can meet. -/
inductive Cause
  -- operators
  | unknownOperator (op : String)
  | undefinedOperand (op : String)
  | nullOperand (op : String)
  | divisionByZero
  | moduloByZero
  | infiniteQuotient (left right : String)
  -- members
  | propertyNotString (got : ValueKind)
  | propertyNotStringOrInt (got : ValueKind)
  | outOfBounds (index : String) (kind : ValueKind) (length : Nat)
  | sliceBound (got : ValueKind)
  | sliceStepZero
  | notSliceable (got : ValueKind)
  | keyNotString (got : ValueKind)
  -- binding
  | redeclared (name : String)
  | computedTarget
  | targetNotObject (got : ValueKind)
  | badTarget (label : String)
  | nameExpected (place label : String)
  | notUnpackable (got : ValueKind)
  | tooFewItems
  | tooManyItems
  -- loops
  | signalOutsideLoop (signal : LoopSignal)
  | notIterable (got : ValueKind)
  -- calls
  | notCallable (got : ValueKind)
  | badParameter (label : String)
  | macroArity (name : String) (most got : Nat)
  | macroKeyword (name key : String)
  | missingArgument (param : String)
  | arity (method : String) (least most got : Nat)
  | argumentNotString (method : String) (got : ValueKind)
  | argumentNotInt (method : String) (got : ValueKind)
  | unexpectedKeyword (method key : String)
  | tooFewArguments (method : String) (least : Nat)
  | rangeArity
  | rangeArgument (got : ValueKind)
  | rangeStep
  | raised (message : Text)
  | namespaceArguments
  -- the host
  | notConvertible (typeName : String)
  /-- An error that a function or test of the host raises. -/
  | foreign (kind : ErrorKind) (message : Text)
  -- tests
  | unknownTest (name : Text)
  | testArity (name : String) (expected got : Nat)
  | testOperand (test : String) (got : ValueKind)
  -- filters
  | unknownFilter (name : Text) (operand : Option ValueKind)
  | notComparable (got : ValueKind)
  | mixedComparison (left right : ValueKind)
  | attributeOperand (filter : String)
  | attributeNames (filter : String)
  | mapNeedsName
  | mapExtraArguments
  | mapAttribute
  | mapItem (got : ValueKind)
  | jsonIndent (got : ValueKind)
  | indentWidth (got : ValueKind)
  | noJson (got : ValueKind)
deriving DecidableEq, Repr

namespace Cause

def kind : Cause → ErrorKind
  | .unknownOperator _ | .redeclared _ | .signalOutsideLoop _ => .malformed
  | .unknownTest _ => .unknownTest
  | .unknownFilter .. => .unknownFilter
  | .testArity .. | .notComparable _ | .mixedComparison .. | .attributeOperand _
  | .attributeNames _ | .mapNeedsName | .mapExtraArguments | .mapAttribute | .mapItem _
  | .noJson _ => .evaluation
  | .foreign kind _ => kind
  | _ => .runtime

/-- A number of arguments in words. -/
def counted (n : Nat) : String := if n == 1 then s!"{n} argument" else s!"{n} arguments"

def message : Cause → Text
  | .unknownOperator op => s!"Unknown operator: {op}"
  | .undefinedOperand op => s!"Cannot perform operation {op} on undefined values"
  | .nullOperand op => s!"Cannot perform operation {op} on null values"
  | .divisionByZero => "Division by zero"
  | .moduloByZero => "Modulo by zero"
  | .infiniteQuotient a b => s!"Division result is not finite: {a} / {b}"
  | .propertyNotString got => s!"Cannot access property with non-string: got {got.label}"
  | .propertyNotStringOrInt got =>
    s!"Cannot access property with non-string/non-number: got {got.label}"
  | .outOfBounds i kind n => s!"Index {i} out of bounds for {kind.label} of length {n}"
  | .sliceBound got => s!"Slice arguments must be integers, got {got.label}"
  | .sliceStepZero => "Slice step cannot be zero"
  | .notSliceable got => s!"Slice object must be an array or string, got {got.label}"
  | .keyNotString got => s!"Object keys must be strings, got {got.label}"
  | .redeclared name => s!"Variable already declared: {name}"
  | .computedTarget => "Cannot assign to a computed member"
  | .targetNotObject got => s!"Cannot assign to member of non-object: got {got.label}"
  | .badTarget label => s!"Invalid LHS inside assignment expression: {label}"
  | .nameExpected place label => s!"Expected identifier for {place}, got {label}"
  | .notUnpackable got => s!"Cannot unpack non-iterable type: {got.label}"
  | .tooFewItems => "Too few items to unpack"
  | .tooManyItems => "Too many items to unpack"
  | .signalOutsideLoop signal => s!"'{signal.word}' outside of a loop"
  | .notIterable got => s!"Expected iterable or object type in for loop: got {got.label}"
  | .notCallable got => s!"Cannot call something that is not a function: got {got.label}"
  | .badParameter label => s!"Unknown argument type: {label}"
  | .macroArity name most got =>
    s!"Macro '{name}' takes at most {most} positional arguments, got {got}"
  | .macroKeyword name key => s!"Macro '{name}' has no parameter named '{key}'"
  | .missingArgument param => s!"Missing positional argument: {param}"
  | .arity method least most got =>
    let expected := if least == most then s!"{least}" else s!"{least}-{most}"
    s!"{method} expects {expected} argument(s); got {got}"
  | .argumentNotString method got => s!"{method} expects a string argument, got {got.label}"
  | .argumentNotInt method got => s!"{method} expects an integer argument, got {got.label}"
  | .unexpectedKeyword method key => s!"{method} got an unexpected keyword argument '{key}'"
  | .tooFewArguments method least =>
    s!"{method} expects at least {counted least}"
  | .rangeArity => "range expects 1 to 3 arguments"
  | .rangeArgument got => s!"range expects integer arguments, got {got.label}"
  | .rangeStep => "range step must not be zero"
  | .raised message => message
  | .namespaceArguments => "namespace expects keyword arguments or a single object"
  | .notConvertible typeName => s!"Cannot convert {typeName} to a template value"
  | .foreign _ message => message
  | .unknownTest name => "Unknown test: " ++ name
  | .testArity name expected got =>
    s!"test '{name}' expects {counted expected}, got {got}"
  | .testOperand test got => s!"Cannot apply test \"{test}\" to type: {got.label}"
  | .unknownFilter name none => "Unknown filter: " ++ name
  | .unknownFilter name (some kind) => s!"Unknown {kind.label} filter: " ++ name
  | .notComparable got => s!"Cannot compare type: {got.label}"
  | .mixedComparison a b => s!"Cannot compare different types: {a.label} and {b.label}"
  | .attributeOperand filter => s!"`{filter}` can only be applied to an array of objects"
  | .attributeNames filter => s!"The attribute and test names of `{filter}` must be strings"
  | .mapNeedsName => "map expects an attribute= keyword or a filter name"
  | .mapExtraArguments => "map with attribute= accepts only the default= keyword"
  | .mapAttribute => "The attribute name of `map` must be a string"
  | .mapItem got => s!"`map` attribute lookup requires objects, got {got.label}"
  | .jsonIndent got => s!"tojson indent must be an integer, got {got.label}"
  | .indentWidth got => s!"indent width must be an integer or string, got {got.label}"
  | .noJson got => s!"Cannot serialize {got.label} to JSON"

end Cause

inductive Fault
  /-- An error of the template, and its place once that is known. -/
  | error (cause : Cause) (pos : Option Pos)
  | escape (why : Escape)
  /-- The evaluation nests deeper than it may, or for ever. -/
  | endless
deriving DecidableEq, Repr

/-- Gives an error that has no place yet the place `pos`. -/
def Fault.locate (pos : Option Pos) : Fault → Fault
  | .error cause none => .error cause pos
  | f => f

end ChatTemplate
