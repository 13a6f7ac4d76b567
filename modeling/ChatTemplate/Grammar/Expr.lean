import ChatTemplate.Grammar.Basic

/-!
# The grammar of expressions

From the loosest to the tightest: condition (`a if b else c`), `or`, `and`, `not`, comparison,
additive, multiplicative, test, filter, call and member, primary. The rules take as `expr` the
reader of the expressions nested in them, and as `n` a bound on the tokens that are left once they
have taken one; `exprWithin` ties the knot.
-/

namespace ChatTemplate.Grammar
open Reader

/-- Items with commas between them, up to the closing bracket; a comma may stand after the last. -/
def items {α : Type} (close : TokenKind) (item : Reader α) : Nat → Reader (List α)
  | 0 => do
    if ← check close then return []
    return [← item]
  | n + 1 => do
    if ← check close then return []
    let x ← item
    if ← accept .comma then return x :: (← items close item n)
    return [x]

/-- What follows the first item of a sequence. -/
def moreItems {α : Type} (item : Reader α) : Nat → Reader (List α)
  | 0 => return []
  | n + 1 => do
    if ← accept .comma then
      let x ← item
      return x :: (← moreItems item n)
    else return []

/-- One item, or a tuple of several with commas between them. -/
def sequence (n : Nat) (item : Reader Expr) : Reader Expr := do
  let first ← item
  if ← check .comma then
    let more ← moreItems item n
    return .tuple (first :: more)
  else return first

/-- One argument of a call, and whether one was given by name: `named` tells that of those
before it. -/
def argument (expr : Reader Expr) (named : Bool) : Reader (Arg × Bool) := do
  let start ← peek
  if start.kind == .multiplicative && start.value == "*" then
    let _ ← advance
    return (.spread (← expr), named)
  else
    let value ← expr
    if ← accept .equals then
      match value with
      | .name w => return (.keyword w (← expr), true)
      | _ => failAt .badKeyword start
    else if named then failAt .lateArgument start
    else return (.positional value, named)

/-- The arguments of a call, up to the closing parenthesis; a comma may stand after the last. -/
def arguments (expr : Reader Expr) : Bool → Nat → Reader (List Arg)
  | named, 0 => do
    if ← check .closeParen then return []
    let (arg, _) ← argument expr named
    let _ ← accept .comma
    return [arg]
  | named, n + 1 => do
    if ← check .closeParen then return []
    let (arg, named) ← argument expr named
    if ← accept .comma then return arg :: (← arguments expr named n)
    return [arg]

def argumentList (n : Nat) (expr : Reader Expr) : Reader (List Arg) := do
  let _ ← expect .openParen "Expected opening parenthesis for arguments list"
  let args ← arguments expr false n
  let _ ← expect .closeParen "Expected closing parenthesis for arguments list"
  return args

/-- The parts between square brackets, and whether a colon stood among them. -/
def subscriptParts (expr : Reader Expr) : Nat → Reader (List (Option Expr) × Bool)
  | 0 => do
    if ← check .closeSquare then return ([], false)
    return ([some (← expr)], false)
  | n + 1 => do
    if ← check .closeSquare then return ([], false)
    if ← accept .colon then
      let (parts, _) ← subscriptParts expr n
      return (none :: parts, true)
    else
      let part ← expr
      let colon ← accept .colon
      let (parts, colons) ← subscriptParts expr n
      return (some part :: parts, colon || colons)

/-- An index, or up to three parts of a slice, applied to `object`. -/
def subscript (n : Nat) (expr : Reader Expr) (object : Expr) : Reader Expr := do
  let start ← peek
  let (parts, colons) ← subscriptParts expr n
  if colons then
    match parts with
    | [a] => return .slice object a none none
    | [a, b] => return .slice object a b none
    | [a, b, c] => return .slice object a b c
    | _ => failAt .longSlice start
  else match parts with
    | some key :: _ => return .index object key
    | _ => failAt .emptySubscript start

/-- The members and subscripts that follow `object`. -/
def members (expr : Reader Expr) : Nat → Expr → Reader Expr
  | 0, object => return object
  | n + 1, object => do
    if ← accept .openSquare then
      let object ← subscript n expr object
      let _ ← expect .closeSquare "Expected closing square bracket"
      members expr n object
    else if ← accept .dot then
      let name ← nameOr .namelessMember
      members expr n (.member object name)
    else return object

/-- The calls that follow `callee`, each with the members of its result. -/
def calls (expr : Reader Expr) : Nat → Expr → Reader Expr
  | 0, callee => return callee
  | n + 1, callee => do
    if ← check .openParen then
      let args ← argumentList n expr
      calls expr n (← members expr n (.call callee args))
    else return callee

/-- The values of the string literals at the front, joined. -/
def joinStrings : List Token → String × List Token
  | [] => ("", [])
  | t :: ts =>
    if t.kind == .string then
      let (more, rest) := joinStrings ts
      (t.value ++ more, rest)
    else ("", t :: ts)

def isBoolName (s : String) : Bool := s == "true" || s == "True" || s == "false" || s == "False"

def isNullName (s : String) : Bool := s == "none" || s == "None"

/-- The expression that a name by itself stands for. -/
def nameExpr (w : Word) : Expr :=
  if isBoolName w.text then .bool w else if isNullName w.text then .null w else .name w

def objectEntry (expr : Reader Expr) : Reader (Expr × Expr) := do
  let key ← expr
  let _ ← expect .colon "Expected colon between key and value in object literal"
  return (key, ← expr)

def primary (n : Nat) (expr : Reader Expr) : Reader Expr := do
  let t ← advance
  match t.kind with
  | .number => return if t.value.toList.contains '.' then .float t.word else .int t.word
  | .string =>
    let more ← (fun ts => .ok (joinStrings ts) : Reader String)
    return .string ⟨t.value ++ more, t.pos⟩
  | .name => return nameExpr t.word
  | .openParen =>
    let e ← sequence n expr
    let _ ← expect .closeParen "Expected closing parenthesis"
    return e
  | .openSquare =>
    let es ← items .closeSquare expr n
    let _ ← expect .closeSquare "Expected closing square bracket"
    return .array es
  | .openCurly =>
    let entries ← items .closeCurly (objectEntry expr) n
    let _ ← expect .closeCurly "Expected closing curly bracket"
    return .object entries
  | kind => failAt (.unexpected kind) t

def callOrMember (n : Nat) (expr : Reader Expr) : Reader Expr := do
  let e ← primary n expr
  let e ← members expr n e
  calls expr n e

/-- The filters that follow `operand`. -/
def filters (expr : Reader Expr) : Nat → Expr → Reader Expr
  | 0, operand => return operand
  | n + 1, operand => do
    if ← accept .pipe then
      let name ← nameOr .namelessFilter
      let f ← calls expr n (.name name)
      filters expr n (.filter operand f)
    else return operand

def filtered (n : Nat) (expr : Reader Expr) : Reader Expr := do
  let e ← callOrMember n expr
  filters expr n e

/-- The tests that follow `operand`. -/
def tests : Nat → Expr → Reader Expr
  | 0, operand => return operand
  | n + 1, operand => do
    if ← acceptWord "is" then
      let negated ← acceptWord "not"
      let name ← nameOr .namelessTest
      tests n (.test operand negated name)
    else return operand

def tested (n : Nat) (expr : Reader Expr) : Reader Expr := do
  let e ← filtered n expr
  tests n e

/-- The operators that `op?` finds after `left`, each with its right operand, from left to right. -/
def operations (op? : List Token → Option (Word × List Token)) (operand : Reader Expr) :
    Nat → Expr → Reader Expr
  | 0, left => return left
  | n + 1, left => fun ts =>
    match op? ts with
    | none => .ok (left, ts)
    | some (op, rest) => (do
        let right ← operand
        operations op? operand n (.binary left op right)) rest

def leftAssoc (n : Nat) (op? : List Token → Option (Word × List Token)) (operand : Reader Expr) :
    Reader Expr := do
  let first ← operand
  operations op? operand n first

def kindOp? (kind : TokenKind) : List Token → Option (Word × List Token)
  | t :: ts => if t.kind == kind then some (t.word, ts) else none
  | [] => none

def wordOp? (word : String) : List Token → Option (Word × List Token)
  | t :: ts => if isName word t then some (t.word, ts) else none
  | [] => none

def comparisonOp? : List Token → Option (Word × List Token)
  | t :: ts =>
    if isName "not" t && (ts.head?.any (isName "in")) then some (⟨"not in", t.pos⟩, ts.tail)
    else if isName "in" t || t.kind == .comparison then some (t.word, ts)
    else none
  | [] => none

def multiplicative (n : Nat) (expr : Reader Expr) : Reader Expr :=
  leftAssoc n (kindOp? .multiplicative) (tested n expr)

def additive (n : Nat) (expr : Reader Expr) : Reader Expr :=
  leftAssoc n (kindOp? .additive) (multiplicative n expr)

def comparison (n : Nat) (expr : Reader Expr) : Reader Expr :=
  leftAssoc n comparisonOp? (additive n expr)

/-- A comparison with any number of `not` before it. -/
def negation (n : Nat) (expr : Reader Expr) : Reader Expr := fun ts =>
  match ts with
  | [] => comparison n expr []
  | t :: rest =>
    if isName "not" t then (negation n expr rest).map fun (e, rest) => (.unary t.word e, rest)
    else comparison n expr (t :: rest)

def conjunction (n : Nat) (expr : Reader Expr) : Reader Expr :=
  leftAssoc n (wordOp? "and") (negation n expr)

def disjunction (n : Nat) (expr : Reader Expr) : Reader Expr :=
  leftAssoc n (wordOp? "or") (conjunction n expr)

/-- `a if b else c`, `a if b` or no condition at all. -/
def condition (n : Nat) (expr : Reader Expr) : Reader Expr := do
  let value ← disjunction n expr
  if ← acceptWord "if" then
    let test ← disjunction n expr
    if ← acceptWord "else" then
      return .ternary test value (← expr)
    else return .select value test
  else return value

/-- Reads an expression where at most `n` tokens are left. -/
def exprWithin : Nat → Reader Expr
  | 0 => noExpression
  | n + 1 => condition n (exprWithin n)

end ChatTemplate.Grammar
