import ChatTemplate.Stmt

/-!
# The tree of a program

A program as those see it who do not run it: nodes of a kind with their children, and the words of
the program as tokens.
-/

namespace ChatTemplate

inductive Node
  | tree (kind : String) (children : List Node)
  | token (kind : String) (word : Word)
  | flag (b : Bool)
  /-- A child that is not there. -/
  | absent

namespace Node

def identifier (w : Word) : Node := .tree "identifier" [.token "NAME" w]

/-- The kind of a node, if it is no token. -/
def kind? : Node → Option String
  | .tree kind _ => some kind
  | _ => none

end Node

mutual

def Expr.node : Expr → Node
  | .name w => .identifier w
  | .int w => .tree "integer_literal" [.token "INT" w]
  | .float w => .tree "float_literal" [.token "FLOAT" w]
  | .string w => .tree "string_literal" [.token "STRING" w]
  | .bool w => .tree "boolean_literal" [.token "BOOL" w]
  | .null w => .tree "null_literal" [.token "NONE" w]
  | .array es => .tree "array_literal" (Expr.nodes es)
  | .tuple es => .tree "tuple_literal" (Expr.nodes es)
  | .object entries => .tree "object_literal" (Expr.entryNodes entries)
  | .binary l op r => .tree "binary_expression" [l.node, .token "OP" op, r.node]
  | .unary op e => .tree "unary_expression" [.token "OP" op, e.node]
  | .member e w => .tree "member_expression" [e.node, .identifier w, .flag false]
  | .index e k => .tree "member_expression" [e.node, k.node, .flag true]
  | .slice e a b c => .tree "member_expression"
    [e.node, .tree "slice_expression" [Expr.optionNode a, Expr.optionNode b, Expr.optionNode c],
      .flag true]
  | .call f args => .tree "call_expression" [f.node, .tree "args" (Arg.nodes args)]
  | .filter e f => .tree "filter_expression" [e.node, f.node]
  | .test e negated w => .tree "test_expression" [e.node, .flag negated, .identifier w]
  | .select v t => .tree "select_expression" [v.node, t.node]
  | .ternary t y n => .tree "ternary_expression" [t.node, y.node, n.node]

def Expr.nodes : List Expr → List Node
  | [] => []
  | e :: es => e.node :: Expr.nodes es

def Expr.optionNode : Option Expr → Node
  | none => .absent
  | some e => e.node

def Expr.entryNodes : List (Expr × Expr) → List Node
  | [] => []
  | p :: ps => Expr.entryNode p :: Expr.entryNodes ps

def Expr.entryNode : Expr × Expr → Node
  | (k, v) => .tree "pair" [k.node, v.node]

def Arg.node : Arg → Node
  | .positional e => e.node
  | .keyword w e => .tree "keyword_argument" [.identifier w, e.node]
  | .spread e => .tree "spread_expression" [e.node]

def Arg.nodes : List Arg → List Node
  | [] => []
  | a :: as => a.node :: Arg.nodes as

end

def Target.node : Target → Node
  | .name w => .identifier w
  | .tuple items => .tree "tuple_literal" (Expr.nodes items)

mutual

def Stmt.node : Stmt → Node
  | .comment w => .tree "comment" [.token "COMMENT" w]
  | .text w => .tree "string_literal" [.token "STRING" w]
  | .output e => e.node
  | .choice t body alternate => .tree "if_stmt"
    [t.node, .tree "body" (Stmt.nodes body), .tree "alternate" (Stmt.nodes alternate)]
  | .loop t e body default => .tree "for_stmt"
    [t.node, e.node, .tree "body" (Stmt.nodes body), .tree "default" (Stmt.nodes default)]
  | .assign t v => .tree "set_stmt" [t.node, v.node, .tree "body" []]
  | .capture t body => .tree "set_stmt" [t.node, .absent, .tree "body" (Stmt.nodes body)]
  | .defineMacro w params body => .tree "macro_stmt"
    [.identifier w, .tree "args" (Arg.nodes params), .tree "body" (Stmt.nodes body)]
  | .callBlock w args none body => .tree "call_stmt"
    [(Expr.call (.name w) args).node, .absent, .tree "body" (Stmt.nodes body)]
  | .callBlock w args (some params) body => .tree "call_stmt"
    [(Expr.call (.name w) args).node, .tree "args" (Arg.nodes params),
      .tree "body" (Stmt.nodes body)]
  | .filterBlock f body => .tree "filter_stmt" [f.node, .tree "body" (Stmt.nodes body)]
  | .control .break w => .tree "break_stmt" [.token "BREAK" w]
  | .control .continue w => .tree "continue_stmt" [.token "CONTINUE" w]

def Stmt.nodes : List Stmt → List Node
  | [] => []
  | s :: ss => s.node :: Stmt.nodes ss

end

/-- The tree of a program. -/
def Program.node (p : Program) : Node := .tree "program" (Stmt.nodes p)

end ChatTemplate
