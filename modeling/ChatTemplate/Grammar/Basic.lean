import ChatTemplate.ErrorReport
import ChatTemplate.Expr
import ChatTemplate.Token

/-!
# Reading tokens

A reader takes tokens off the front of a list; past the end it sees end marks. A reader that loops
or nests is given a bound on the number of tokens that are left: what is written for zero is what
happens at the end of the list.
-/

namespace ChatTemplate

inductive GrammarCause
  /-- A token of the wrong class, where `what` was expected. -/
  | missing (what : String) (got : TokenKind)
  | endOfInput
  | strayToken (got : TokenKind)
  | missingWord (word : String)
  | noStatement (got : TokenKind)
  | unknownStatement (word : String)
  | unexpected (got : TokenKind)
  | badLoopTarget (label : String)
  | missingIn
  | namelessMacro
  | namelessCall
  | namelessTest
  | namelessFilter
  | namelessMember
  | badKeyword
  | lateArgument
  | emptySubscript
  | longSlice
deriving DecidableEq, Repr

namespace GrammarCause

def kind : GrammarCause → ErrorKind
  | .missing .. | .endOfInput | .strayToken _ => .missingToken
  | _ => .malformed

/-- The message, for an error at `pos`; one of a missing token repeats the place. -/
def message (pos : Pos) : GrammarCause → String
  | .missing what got => place s!"{what}, got {got.label}"
  | .endOfInput => place "Unexpected end of input"
  | .strayToken got => place s!"Unexpected token type: {got.label}"
  | .missingWord word => s!"Expected {word}"
  | .noStatement got => s!"Unknown statement, got {got.label}"
  | .unknownStatement word => s!"Unknown statement type: {word}"
  | .unexpected got => s!"Unexpected token: {got.label}"
  | .badLoopTarget label =>
    s!"Expected identifier/tuple for the loop variable, got {label} instead"
  | .missingIn => "Expected `in` keyword following loop variable"
  | .namelessMacro => "Expected identifier following macro statement"
  | .namelessCall => "Expected identifier following call statement"
  | .namelessTest => "Expected identifier for the test"
  | .namelessFilter => "Expected identifier for the filter"
  | .namelessMember => "Expected identifier following dot operator"
  | .badKeyword => "Expected identifier for keyword argument"
  | .lateArgument => "Positional arguments must come before keyword arguments"
  | .emptySubscript => "Expected at least one argument for member/slice expression"
  | .longSlice => "Expected 0-3 arguments for slice expression"
where
  place (s : String) : String := s!"{s} at line {pos.line}, col {pos.column}"

end GrammarCause

structure GrammarFault where
  cause : GrammarCause
  pos : Pos
deriving DecidableEq, Repr

def GrammarFault.report (e : GrammarFault) : ErrorReport :=
  ⟨e.cause.kind, e.cause.message e.pos, some e.pos⟩

abbrev Reader (α : Type) := StateT (List Token) (Except GrammarFault) α

namespace Reader

def peek : Reader Token := fun ts => .ok (ts.headD .pastEnd, ts)

def advance : Reader Token := fun ts => .ok (ts.headD .pastEnd, ts.tail)

def failAt {α : Type} (cause : GrammarCause) (t : Token) : Reader α :=
  throw ⟨cause, t.pos⟩

/-- Fails at the next token. -/
def fail {α : Type} (cause : TokenKind → GrammarCause) : Reader α := do
  let t ← peek
  failAt (cause t.kind) t

def check (kind : TokenKind) : Reader Bool := return (← peek).kind == kind

/-- Takes the next token if it is of this kind. -/
def accept (kind : TokenKind) : Reader Bool := do
  if ← check kind then
    let _ ← advance
    return true
  else return false

def expect (kind : TokenKind) (what : String) : Reader Token := do
  if ← check kind then advance else fail (.missing what)

def isName (word : String) (t : Token) : Bool := t.kind == .name && t.value == word

/-- Is the next token this word? -/
def checkWord (word : String) : Reader Bool := return isName word (← peek)

def acceptWord (word : String) : Reader Bool := do
  if ← checkWord word then
    let _ ← advance
    return true
  else return false

def expectWord (word : String) : Reader Token := do
  if ← checkWord word then advance else fail fun _ => .missingWord word

/-- Do a statement mark and one of these words come next? -/
def checkStatement (words : List String) : Reader Bool := fun ts =>
  let next := ts.tail.headD .pastEnd
  .ok ((ts.headD .pastEnd).kind == .openStatement && next.kind == .name &&
    words.contains next.value, ts)

/-- Takes a name of any kind. -/
def nameOr (cause : GrammarCause) : Reader Word := do
  if ← check .name then
    let t ← advance
    return ⟨t.value, t.pos⟩
  else fail fun _ => cause

/-- What any expression meets where no token is left. -/
def noExpression {α : Type} : Reader α := fail .unexpected

end Reader

def Token.word (t : Token) : Word := ⟨t.value, t.pos⟩

end ChatTemplate
