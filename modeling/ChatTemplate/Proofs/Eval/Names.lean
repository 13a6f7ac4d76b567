import ChatTemplate.Value

/-!
# The names in a program

The identifiers of expressions and statements: everything that evaluating them may look up, and the
names of filters and targets besides. The names of members, keywords and tests are none of them.
-/

namespace ChatTemplate

mutual

def Expr.names : Expr → List String
  | .name w => [w.text]
  | .int _ | .float _ | .string _ | .bool _ | .null _ => []
  | .array es | .tuple es => Expr.namesOfList es
  | .object entries => Expr.namesOfEntries entries
  | .binary l _ r => l.names ++ r.names
  | .unary _ e => e.names
  | .member e _ => e.names
  | .index e k => e.names ++ k.names
  | .slice e a b c =>
    e.names ++ (Expr.namesOfOption a ++ (Expr.namesOfOption b ++ Expr.namesOfOption c))
  | .call f args => f.names ++ Arg.namesOfList args
  | .filter e f => e.names ++ f.names
  | .test e _ _ => e.names
  | .select v t => v.names ++ t.names
  | .ternary t y n => t.names ++ (y.names ++ n.names)

def Expr.namesOfList : List Expr → List String
  | [] => []
  | e :: es => e.names ++ Expr.namesOfList es

def Expr.namesOfOption : Option Expr → List String
  | none => []
  | some e => e.names

def Expr.namesOfEntries : List (Expr × Expr) → List String
  | [] => []
  | p :: ps => Expr.namesOfEntry p ++ Expr.namesOfEntries ps

def Expr.namesOfEntry : Expr × Expr → List String
  | (k, v) => k.names ++ v.names

def Arg.names : Arg → List String
  | .positional e | .spread e | .keyword _ e => e.names

def Arg.namesOfList : List Arg → List String
  | [] => []
  | a :: as => a.names ++ Arg.namesOfList as

end

def Target.names : Target → List String
  | .name w => [w.text]
  | .tuple items => Expr.namesOfList items

mutual

def Stmt.names : Stmt → List String
  | .comment _ | .text _ | .control .. => []
  | .output e => e.names
  | .choice t body alternate =>
    t.names ++ (Stmt.namesOfList body ++ Stmt.namesOfList alternate)
  | .loop t e body default =>
    t.names ++ (e.names ++ (Stmt.namesOfList body ++ Stmt.namesOfList default))
  | .assign t v => t.names ++ v.names
  | .capture t body => t.names ++ Stmt.namesOfList body
  | .defineMacro _ params body => Arg.namesOfList params ++ Stmt.namesOfList body
  | .callBlock w args params body =>
    w.text :: (Arg.namesOfList args ++
      (Arg.namesOfList (params.getD []) ++ Stmt.namesOfList body))
  | .filterBlock f body => f.names ++ Stmt.namesOfList body

def Stmt.namesOfList : List Stmt → List String
  | [] => []
  | s :: ss => s.names ++ Stmt.namesOfList ss

end

/-- The names that occur in a program. -/
def Program.names (p : Program) : List String := Stmt.namesOfList p

/-- The names that occur in what a function runs, the defaults of its parameters included. -/
def Function.names : Function → List String
  | .defined _ params body =>
    params.flatMap (fun q => Expr.namesOfOption q.default) ++ Stmt.namesOfList body
  | .caller _ body _ => Stmt.namesOfList body
  | _ => []

end ChatTemplate
