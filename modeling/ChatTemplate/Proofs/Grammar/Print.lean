import ChatTemplate.Grammar.Stmt

/-!
# Programs as tokens

`Program.print` writes a program as the tokens that spell it. An operand stands in parentheses where
it binds less tightly (`Expr.level`) than its place asks for. A `Style` says what is free: how many
more pairs of parentheses stand around each operand, and whether a condition that is all there is of
an alternate is written `elif` or as a statement of its own behind `else`. `wellFormed` tells the
trees that stand for a program: names are not literals, operators are operators, and so on.
-/

namespace ChatTemplate.Grammar

/-- How tightly an expression binds, from the loosest to the tightest. -/
inductive Level
  | sequence
  | condition
  | disjunction
  | conjunction
  | negation
  | comparison
  | additive
  | multiplicative
  | test
  | filter
  | call
  | primary
deriving DecidableEq, Repr

namespace Level

def rank : Level → Nat
  | sequence => 0
  | condition => 1
  | disjunction => 2
  | conjunction => 3
  | negation => 4
  | comparison => 5
  | additive => 6
  | multiplicative => 7
  | test => 8
  | filter => 9
  | call => 10
  | primary => 11

instance : LE Level := ⟨fun p q => p.rank ≤ q.rank⟩

instance (p q : Level) : Decidable (p ≤ q) := inferInstanceAs (Decidable (p.rank ≤ q.rank))

/-- The next tighter level. -/
def next : Level → Level
  | sequence => condition
  | condition => disjunction
  | disjunction => conjunction
  | conjunction => negation
  | negation => comparison
  | comparison => additive
  | additive => multiplicative
  | multiplicative => test
  | test => filter
  | filter => call
  | call | primary => primary

end Level

/-- The level of a binary operator. -/
def operatorLevel (op : String) : Level :=
  if op = "or" then .disjunction
  else if op = "and" then .conjunction
  else if op ∈ ["+", "-", "~"] then .additive
  else if op ∈ ["*", "/", "%"] then .multiplicative
  else .comparison

def binaryOperators : List String :=
  ["or", "and", "==", "!=", "<", ">", "<=", ">=", "in", "not in", "+", "-", "~", "*", "/", "%"]

end Grammar

open Grammar

def Expr.level : Expr → Level
  | .tuple _ => .sequence
  | .select .. | .ternary .. => .condition
  | .binary _ op _ => operatorLevel op.text
  | .unary .. => .negation
  | .test .. => .test
  | .filter .. => .filter
  | .member .. | .index .. | .slice .. | .call .. => .call
  | .name _ | .int _ | .float _ | .string _ | .bool _ | .null _ | .array _ | .object _ => .primary

namespace Grammar

/-! ### Well-formed trees -/

/-- A name that the grammar takes for a name wherever an expression may begin. -/
def isPlainName (s : String) : Bool := !isBoolName s && !isNullName s && s != "not"

/-- Does no positional argument stand behind one that is given by name? -/
def ordered : Bool → List Arg → Bool
  | _, [] => true
  | named, .positional _ :: args => !named && ordered named args
  | _, .keyword .. :: args => ordered true args
  | named, .spread _ :: args => ordered named args

end Grammar

mutual

def Expr.wellFormed : Expr → Bool
  | .name w => isPlainName w.text
  | .int w => !w.text.toList.contains '.'
  | .float w => w.text.toList.contains '.'
  | .string _ => true
  | .bool w => isBoolName w.text
  | .null w => isNullName w.text
  | .array es => Expr.allWellFormed es
  | .tuple es => decide (2 ≤ es.length) && Expr.allWellFormed es
  | .object entries => Expr.entriesWellFormed entries
  | .binary l op r => binaryOperators.contains op.text && (l.wellFormed && r.wellFormed)
  | .unary op e => op.text == "not" && e.wellFormed
  | .member e _ => e.wellFormed
  | .index e k => e.wellFormed && k.wellFormed
  | .slice e a b c =>
    e.wellFormed && (Expr.optionWellFormed a && (Expr.optionWellFormed b && Expr.optionWellFormed c))
  | .call f args => f.wellFormed && (ordered false args && Arg.allWellFormed args)
  | .filter e f => e.wellFormed && f.isFilter
  | .test e negated w => e.wellFormed && (negated || w.text != "not")
  | .select v t => v.wellFormed && t.wellFormed
  | .ternary t y n => t.wellFormed && (y.wellFormed && n.wellFormed)

/-- A name, or a direct call of one; any name will do. -/
def Expr.isFilter : Expr → Bool
  | .name _ => true
  | .call (.name _) args => ordered false args && Arg.allWellFormed args
  | _ => false

def Expr.allWellFormed : List Expr → Bool
  | [] => true
  | e :: es => e.wellFormed && Expr.allWellFormed es

def Expr.optionWellFormed : Option Expr → Bool
  | none => true
  | some e => e.wellFormed

def Expr.entriesWellFormed : List (Expr × Expr) → Bool
  | [] => true
  | p :: ps => Expr.entryWellFormed p && Expr.entriesWellFormed ps

def Expr.entryWellFormed : Expr × Expr → Bool
  | (k, v) => k.wellFormed && v.wellFormed

def Arg.wellFormed : Arg → Bool
  | .positional e | .spread e => e.wellFormed
  | .keyword w e => isPlainName w.text && e.wellFormed

def Arg.allWellFormed : List Arg → Bool
  | [] => true
  | a :: as => a.wellFormed && Arg.allWellFormed as

end

/-- The name of a filter. -/
def Expr.filterName : Expr → Word
  | .name w | .call (.name w) _ => w
  | _ => default

/-- The expression that a loop target is read as. -/
def Target.toExpr : Target → Expr
  | .name w => .name w
  | .tuple items => .tuple items

/-- A name, or a tuple of at least two names. -/
def Target.wellFormed : Target → Bool
  | .name w => isPlainName w.text
  | .tuple items => decide (2 ≤ items.length) && items.all fun
    | .name w => isPlainName w.text
    | _ => false

mutual

def Stmt.wellFormed : Stmt → Bool
  | .comment _ | .text _ => true
  | .output e => e.wellFormed
  | .choice t body alternate =>
    t.wellFormed && (Stmt.allWellFormed body && Stmt.allWellFormed alternate)
  | .loop t e body default =>
    t.wellFormed && (e.wellFormed && (Stmt.allWellFormed body && Stmt.allWellFormed default))
  | .assign t v => t.wellFormed && v.wellFormed
  | .capture t body => t.wellFormed && Stmt.allWellFormed body
  | .defineMacro w params body =>
    isPlainName w.text && (ordered false params && (Arg.allWellFormed params &&
      Stmt.allWellFormed body))
  | .callBlock w args params body =>
    isPlainName w.text && (ordered false args && (Arg.allWellFormed args &&
      (ordered false (params.getD []) && (Arg.allWellFormed (params.getD []) &&
        Stmt.allWellFormed body))))
  | .filterBlock f body =>
    isPlainName f.filterName.text && (f.isFilter && Stmt.allWellFormed body)
  | .control signal w => w.text == signal.word

def Stmt.allWellFormed : List Stmt → Bool
  | [] => true
  | s :: ss => s.wellFormed && Stmt.allWellFormed ss

end

/-! ### Tokens -/

namespace Grammar

/-- What a mark looks like. -/
def spelling : TokenKind → String
  | .openStatement => "\x7b%"
  | .closeStatement => "%\x7d"
  | .openExpression => "\x7b\x7b"
  | .closeExpression => "\x7d\x7d"
  | .equals => "="
  | .openParen => "("
  | .closeParen => ")"
  | .openCurly => "\x7b"
  | .closeCurly => "\x7d"
  | .openSquare => "["
  | .closeSquare => "]"
  | .comma => ","
  | .dot => "."
  | .colon => ":"
  | .pipe => "|"
  | _ => ""

def mark (kind : TokenKind) : Token := ⟨kind, spelling kind, Pos.start⟩

def keyword (word : String) : Token := ⟨.name, word, Pos.start⟩

def star : Token := ⟨.multiplicative, "*", Pos.start⟩

/-- The token that is the word `w`. -/
def leaf (kind : TokenKind) (w : Word) : Token := ⟨kind, w.text, w.pos⟩

/-- The tokens of a binary operator. -/
def operatorTokens (op : Word) : List Token :=
  match operatorLevel op.text with
  | .disjunction | .conjunction => [leaf .name op]
  | .additive => [leaf .additive op]
  | .multiplicative => [leaf .multiplicative op]
  | _ =>
    if op.text = "not in" then [⟨.name, "not", op.pos⟩, keyword "in"]
    else if op.text = "in" then [leaf .name op]
    else [leaf .comparison op]

/-- `ts` between `k` pairs of parentheses. -/
def wrap : Nat → List Token → List Token
  | 0, ts => ts
  | k + 1, ts => mark .openParen :: wrap k ts ++ [mark .closeParen]

/-- Lists of tokens with commas between them. -/
def separated : List (List Token) → List Token
  | [] => []
  | [ts] => ts
  | ts :: us :: tss => ts ++ mark .comma :: separated (us :: tss)

/-- What is free in writing a program, at the path of each operand and alternate. -/
structure Style where
  /-- The number of pairs of parentheses that need not be there. -/
  parens : List Nat → Nat
  /-- Is a condition that is all there is of the alternate written `elif`? -/
  chained : List Nat → Bool

namespace Style

/-- No more parentheses than are needed, and `elif` wherever it fits. -/
def plain : Style := ⟨fun _ => 0, fun _ => true⟩

/-- The style of the part with the number `i`. -/
def child (s : Style) (i : Nat) : Style :=
  ⟨fun path => s.parens (i :: path), fun path => s.chained (i :: path)⟩

/-- Puts the tokens `ts` of `e` in the parentheses that the place asks for, and those of the
style. -/
def enclose (s : Style) (place : Level) (e : Expr) (ts : List Token) : List Token :=
  wrap (s.parens [] + if place ≤ e.level then 0 else 1) ts

end Style
end Grammar

/-! ### Printing -/

mutual

/-- The tokens of an expression, without parentheses around the whole. -/
def Expr.body (s : Style) : Expr → List Token
  | .name w | .bool w | .null w => [leaf .name w]
  | .int w | .float w => [leaf .number w]
  | .string w => [leaf .string w]
  | .array es => mark .openSquare :: separated (Expr.bodies s 0 es) ++ [mark .closeSquare]
  | .tuple es => separated (Expr.bodies s 0 es)
  | .object entries =>
    mark .openCurly :: separated (Expr.entryBodies s 0 entries) ++ [mark .closeCurly]
  | .binary l op r =>
    (s.child 0).enclose (operatorLevel op.text) l (l.body (s.child 0)) ++ (operatorTokens op ++
      (s.child 1).enclose (operatorLevel op.text).next r (r.body (s.child 1)))
  | .unary op e => leaf .name op :: (s.child 0).enclose .negation e (e.body (s.child 0))
  | .member e w => (s.child 0).enclose .call e (e.body (s.child 0)) ++ [mark .dot, leaf .name w]
  | .index e k =>
    (s.child 0).enclose .call e (e.body (s.child 0)) ++ mark .openSquare ::
      ((s.child 1).enclose .condition k (k.body (s.child 1)) ++ [mark .closeSquare])
  | .slice e a b c =>
    (s.child 0).enclose .call e (e.body (s.child 0)) ++ mark .openSquare ::
      (Expr.optionBody (s.child 1) [] a ++ mark .colon :: (Expr.optionBody (s.child 2) [] b ++
        (Expr.optionBody (s.child 3) [mark .colon] c ++ [mark .closeSquare])))
  | .call f args =>
    (s.child 0).enclose .call f (f.body (s.child 0)) ++ mark .openParen ::
      (separated (Arg.bodies s 1 args) ++ [mark .closeParen])
  | .filter e f =>
    (s.child 0).enclose .filter e (e.body (s.child 0)) ++ mark .pipe :: f.filterBody (s.child 1)
  | .test e negated w =>
    (s.child 0).enclose .test e (e.body (s.child 0)) ++ keyword "is" ::
      ((if negated then [keyword "not"] else []) ++ [leaf .name w])
  | .select v t =>
    (s.child 0).enclose .disjunction v (v.body (s.child 0)) ++ keyword "if" ::
      (s.child 1).enclose .disjunction t (t.body (s.child 1))
  | .ternary t y n =>
    (s.child 1).enclose .disjunction y (y.body (s.child 1)) ++ keyword "if" ::
      ((s.child 0).enclose .disjunction t (t.body (s.child 0)) ++ keyword "else" ::
        (s.child 2).enclose .condition n (n.body (s.child 2)))

/-- A filter: its name, and the arguments if it is called. -/
def Expr.filterBody (s : Style) : Expr → List Token
  | .name w => [leaf .name w]
  | .call (.name w) args =>
    leaf .name w :: mark .openParen :: (separated (Arg.bodies s 1 args) ++ [mark .closeParen])
  | _ => []

def Expr.bodies (s : Style) : Nat → List Expr → List (List Token)
  | _, [] => []
  | i, e :: es =>
    (s.child i).enclose .condition e (e.body (s.child i)) :: Expr.bodies s (i + 1) es

/-- An expression that may be missing, with the marks that come only with it. -/
def Expr.optionBody (s : Style) (lead : List Token) : Option Expr → List Token
  | none => []
  | some e => lead ++ s.enclose .condition e (e.body s)

def Expr.entryBodies (s : Style) : Nat → List (Expr × Expr) → List (List Token)
  | _, [] => []
  | i, p :: ps => Expr.entryBody (s.child i) p :: Expr.entryBodies s (i + 1) ps

def Expr.entryBody (s : Style) : Expr × Expr → List Token
  | (k, v) =>
    (s.child 0).enclose .condition k (k.body (s.child 0)) ++ mark .colon ::
      (s.child 1).enclose .condition v (v.body (s.child 1))

def Arg.body (s : Style) : Arg → List Token
  | .positional e => s.enclose .condition e (e.body s)
  | .keyword w e => leaf .name w :: mark .equals :: s.enclose .condition e (e.body s)
  | .spread e => star :: s.enclose .condition e (e.body s)

def Arg.bodies (s : Style) : Nat → List Arg → List (List Token)
  | _, [] => []
  | i, a :: as => a.body (s.child i) :: Arg.bodies s (i + 1) as

end

/-- The tokens of an expression that stands where one of the level `place` is asked for. -/
def Expr.print (s : Style) (place : Level) (e : Expr) : List Token :=
  s.enclose place e (e.body s)

/-- Arguments or parameters in their parentheses. -/
def Arg.printList (s : Style) (i : Nat) (args : List Arg) : List Token :=
  mark .openParen :: (separated (Arg.bodies s i args) ++ [mark .closeParen])

/-- The parameters of a call block, where there are any. -/
def Arg.printParams (s : Style) : Option (List Arg) → List Token
  | none => []
  | some params => Arg.printList s 0 params

/-- A loop target, which may stand in parentheses like any operand, and so may its parts. -/
def Target.print (s : Style) (t : Target) : List Token := t.toExpr.print s .sequence

namespace Grammar

/-- A statement mark with the tokens `ts` between its ends. -/
def tag (word : String) (ts : List Token) : List Token :=
  mark .openStatement :: keyword word :: (ts ++ [mark .closeStatement])

end Grammar

mutual

def Stmt.print (s : Style) : Stmt → List Token
  | .comment w => [leaf .comment w]
  | .text w => [leaf .text w]
  | .output e =>
    mark .openExpression :: (e.print (s.child 0) .condition ++ [mark .closeExpression])
  | .choice t body alternate =>
    tag "if" (t.print (s.child 0) .condition) ++ (Stmt.printList (s.child 1) 0 body ++
      (Stmt.printAlternate (s.child 2) alternate ++ tag "endif" []))
  | .loop t e body default =>
    tag "for" (t.print (s.child 0) ++ keyword "in" :: e.print (s.child 1) .condition) ++
      (Stmt.printList (s.child 2) 0 body ++ (Stmt.printDefault (s.child 3) default ++
        tag "endfor" []))
  | .assign t v =>
    tag "set" (t.print (s.child 0) .sequence ++ mark .equals :: v.print (s.child 1) .sequence)
  | .capture t body =>
    tag "set" (t.print (s.child 0) .sequence) ++ (Stmt.printList (s.child 1) 0 body ++
      tag "endset" [])
  | .defineMacro w params body =>
    tag "macro" (leaf .name w :: Arg.printList (s.child 0) 0 params) ++
      (Stmt.printList (s.child 1) 0 body ++ tag "endmacro" [])
  | .callBlock w args params body =>
    tag "call" (Arg.printParams (s.child 1) params ++ leaf .name w ::
        Arg.printList (s.child 0) 0 args) ++
      (Stmt.printList (s.child 2) 0 body ++ tag "endcall" [])
  | .filterBlock f body =>
    tag "filter" (f.filterBody (s.child 0)) ++ (Stmt.printList (s.child 1) 0 body ++
      tag "endfilter" [])
  | .control _ w => [mark .openStatement, leaf .name w, mark .closeStatement]

def Stmt.printList (s : Style) : Nat → List Stmt → List Token
  | _, [] => []
  | i, stmt :: stmts => stmt.print (s.child i) ++ Stmt.printList s (i + 1) stmts

/-- The alternate of a condition. -/
def Stmt.printAlternate (s : Style) : List Stmt → List Token
  | [] => []
  | [.choice t body alternate] =>
    if s.chained [] then
      tag "elif" (t.print (s.child 0) .condition) ++ (Stmt.printList (s.child 1) 0 body ++
        Stmt.printAlternate (s.child 2) alternate)
    else
      tag "else" [] ++ (tag "if" (t.print ((s.child 0).child 0) .condition) ++
        (Stmt.printList ((s.child 0).child 1) 0 body ++
          (Stmt.printAlternate ((s.child 0).child 2) alternate ++ tag "endif" [])))
  | stmt :: stmts =>
    tag "else" [] ++ (stmt.print (s.child 0) ++ Stmt.printList s 1 stmts)

/-- What is done for a loop that makes no pass. -/
def Stmt.printDefault (s : Style) : List Stmt → List Token
  | [] => []
  | stmt :: stmts =>
    tag "else" [] ++ (stmt.print (s.child 0) ++ Stmt.printList s 1 stmts)

end

/-- The tokens of a program, without the end mark. -/
def Program.print (s : Style) (program : Program) : List Token := Stmt.printList s 0 program

end ChatTemplate
