import ChatTemplate.Datum.Text
import ChatTemplate.Host
import ChatTemplate.Store.Equality

/-!
# Evaluation

An evaluation reads and changes the store, whose changes stay when it fails. It takes what
evaluates the parts of a template as an `Evaluator`, which `Evaluator.within` supplies.
-/

namespace ChatTemplate

abbrev Eval (α : Type) := ExceptT Fault (StateM Store) α

/-- What a statement leaves: its text, or a signal on its way to a loop with the text before it. -/
inductive Flow
  | text (s : Text)
  | signal (signal : LoopSignal) (s : Text)
deriving DecidableEq, Repr

/-- Evaluates expressions and statements in a scope. -/
structure Evaluator where
  expr : Expr → Scope → Eval Value
  stmt : Stmt → Scope → Eval Flow

namespace Eval
variable {α : Type}

def fail (cause : Cause) : Eval α := throw (.error cause none)

def escape (why : Escape) : Eval α := throw (.escape why)

def badValue (site : BadValue) : Eval α := escape (@Escape.badValue site)

def overflow (site : Overflow) : Eval α := escape (@Escape.overflow site)

/-- The host writes no integers of more digits than this. Errors name none; what templates print, and the
numerals in them, are not held to it here. -/
def maxDigits : Nat := 4300

/-- An integer as it stands in an error. -/
def integerText (i : Int) : Eval String :=
  if i.natAbs < Nat.pow 10 maxDigits then return toString i else badValue (.digits i)

/-- A number as it stands in an error. -/
def numberText : Number → Eval String
  | .int i => integerText i
  | .float f => return Double.plainText f

/-- The answer of a question to the store that may have none in finite time. -/
def finite (question : Store → Option α) : Eval α := do
  match question (← get) with
  | some a => return a
  | none => throw .endless

def datum (v : Value) : Eval Datum := finite (·.datum? v)

/-- The text of a value as a template prints it. -/
def textOf (v : Value) : Eval Text := return (← datum v).text

def equal (v w : Value) : Eval Bool := finite (·.equal? v w)

def truthy (v : Value) : Eval Bool := return (← get).truthy v

def newObject (slots : Slots Text Value) : Eval Value :=
  modifyGet fun st => (.object st.objects.size, st.pushObject slots)

def newFunction (f : Function) : Eval Value :=
  modifyGet fun st => (.function st.functions.size, st.pushFunction f)

def slotsOf (r : ObjectRef) : Eval (Slots Text Value) := return (← get).slots r

/-- A new scope inside `s`. -/
def innerScope (s : Scope) : Eval Scope :=
  modifyGet fun st => (⟨st.frames.size, s.chain⟩, st.pushFrame [])

/-- A new scope that holds the global functions. -/
def rootScope : Eval Scope :=
  modifyGet fun st => (⟨st.frames.size, []⟩, st.pushFrame Store.globalVars)

def bind (s : Scope) (name : String) (v : Value) : Eval Unit :=
  modify fun st => st.bind s.inner name v

end Eval
end ChatTemplate
