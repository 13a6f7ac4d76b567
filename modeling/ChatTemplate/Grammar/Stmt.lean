import ChatTemplate.Grammar.Expr
import ChatTemplate.Stmt

/-!
# The grammar of statements

The rules take as `stmt` the reader of the statements nested in them, and as `n` a bound on the
tokens that are left once they have taken one; `stmtWithin` ties the knot. A block ends before a
statement mark and one of the words that may end it.
-/

namespace ChatTemplate.Grammar
open Reader

/-- Takes the end of a statement; the two ways to say what was expected. -/
def closeStatement : Reader Token := expect .closeStatement "Expected closing statement token"

def closeMark : Reader Token := expect .closeStatement "Expected '%\x7d'"

def openMark : Reader Token := expect .openStatement "Expected '\x7b%'"

/-- The statement that is `word` alone. -/
def endStatement (word : String) : Reader Unit := do
  let _ ← openMark
  let _ ← expectWord word
  let _ ← closeMark

/-- The statements up to one that begins with a word of `ends`, which is left. -/
def block (stmt : Reader Stmt) (ends : List String) : Nat → Reader (List Stmt)
  | 0 => do
    if ← checkStatement ends then return []
    return [← stmt]
  | n + 1 => do
    if ← checkStatement ends then return []
    let s ← stmt
    return s :: (← block stmt ends n)

/-- An assignment, or a block whose text is assigned. -/
def assignment (n : Nat) (stmt : Reader Stmt) : Reader Stmt := do
  let target ← sequence n (exprWithin n)
  if ← accept .equals then
    let value ← sequence n (exprWithin n)
    let _ ← closeStatement
    return .assign target value
  else
    let _ ← closeMark
    let body ← block stmt ["endset"] n
    let _ ← openMark
    let _ ← expectWord "endset"
    let _ ← closeStatement
    return .capture target body

/-- A choice without its end; a further condition is a choice nested in the alternate. -/
def choice (stmt : Reader Stmt) : Nat → Reader Stmt
  | 0 => noExpression
  | n + 1 => do
    let test ← exprWithin (n + 1)
    let _ ← closeStatement
    let body ← block stmt ["elif", "else", "endif"] n
    if ← checkStatement ["elif"] then
      let _ ← advance
      let _ ← advance
      return .choice test body [← choice stmt n]
    else if ← checkStatement ["else"] then
      let _ ← advance
      let _ ← advance
      let _ ← closeStatement
      return .choice test body (← block stmt ["endif"] n)
    else return .choice test body []

def loop (n : Nat) (stmt : Reader Stmt) : Reader Stmt := do
  let e ← sequence n (primary n (exprWithin n))
  match e.target? with
  | none => fail fun _ => .badLoopTarget e.label
  | some target =>
    if ← acceptWord "in" then
      let iterable ← exprWithin n
      let _ ← closeStatement
      let body ← block stmt ["endfor", "else"] n
      if ← checkStatement ["else"] then
        let _ ← advance
        let _ ← advance
        let _ ← closeStatement
        return .loop target iterable body (← block stmt ["endfor"] n)
      else return .loop target iterable body []
    else fail fun _ => .missingIn

/-- A primary expression that is a name. -/
def primaryName (n : Nat) (cause : GrammarCause) : Reader Word := do
  match ← primary n (exprWithin n) with
  | .name w => return w
  | _ => fail fun _ => cause

def macroDefinition (n : Nat) (stmt : Reader Stmt) : Reader Stmt := do
  let name ← primaryName n .namelessMacro
  let params ← argumentList n (exprWithin n)
  let _ ← closeStatement
  let body ← block stmt ["endmacro"] n
  return .defineMacro name params body

def callBlock (n : Nat) (stmt : Reader Stmt) : Reader Stmt := do
  let params ←
    if ← check .openParen then some <$> argumentList n (exprWithin n) else pure none
  let callee ← primaryName n .namelessCall
  let args ← argumentList n (exprWithin n)
  let _ ← closeStatement
  let body ← block stmt ["endcall"] n
  endStatement "endcall"
  return .callBlock callee args params body

def filterBlock (n : Nat) (stmt : Reader Stmt) : Reader Stmt := do
  let e ← primary n (exprWithin n)
  let f ←
    match e with
    | .name _ => calls (exprWithin n) n e
    | _ => pure e
  let _ ← closeStatement
  let body ← block stmt ["endfilter"] n
  endStatement "endfilter"
  return .filterBlock f body

def control (signal : LoopSignal) (keyword : Token) : Reader Stmt := do
  let _ ← closeStatement
  return .control signal keyword.word

/-- A statement after its mark. -/
def statement (n : Nat) (stmt : Reader Stmt) : Reader Stmt := do
  if !(← check .name) then fail .noStatement
  else
    let keyword ← peek
    match keyword.value with
    | "set" => do let _ ← advance; assignment n stmt
    | "if" => do
      let _ ← advance
      let s ← choice stmt n
      endStatement "endif"
      return s
    | "macro" => do
      let _ ← advance
      let s ← macroDefinition n stmt
      endStatement "endmacro"
      return s
    | "for" => do
      let _ ← advance
      let s ← loop n stmt
      endStatement "endfor"
      return s
    | "call" => do let _ ← advance; callBlock n stmt
    | "filter" => do let _ ← advance; filterBlock n stmt
    | "break" => do let _ ← advance; control .break keyword
    | "continue" => do let _ ← advance; control .continue keyword
    | word => failAt (.unknownStatement word) keyword

/-- Literal text, a comment, an output or a statement. -/
def piece (n : Nat) (stmt : Reader Stmt) : Reader Stmt := do
  let t ← peek
  match t.kind with
  | .comment => do let _ ← advance; return .comment t.word
  | .text => do let _ ← advance; return .text t.word
  | .openStatement => do let _ ← advance; statement n stmt
  | .openExpression => do
    let _ ← advance
    let e ← exprWithin n
    let _ ← expect .closeExpression "Expected closing expression token"
    return .output e
  | .eof => failAt .endOfInput t
  | kind => failAt (.strayToken kind) t

/-- Reads a statement where at most `n` tokens are left. -/
def stmtWithin : Nat → Reader Stmt
  | 0 => fail fun _ => .endOfInput
  | n + 1 => piece n (stmtWithin n)

/-- The statements up to the first end mark. -/
def statements : Nat → Reader (List Stmt)
  | 0 => return []
  | n + 1 => do
    if ← check .eof then return []
    let s ← stmtWithin (n + 1)
    return s :: (← statements n)

end Grammar

/-- The program that a list of tokens spells. -/
def Program.ofTokens (ts : List Token) : Except GrammarFault Program :=
  ((Grammar.statements ts.length).run ts).map Prod.fst

end ChatTemplate
