import ChatTemplate.Pos

/-! # Expressions -/

namespace ChatTemplate

/-- A name, a literal or an operator as written, and its place. -/
structure Word where
  text : String
  pos : Pos
deriving DecidableEq, Repr, Inhabited

mutual

inductive Expr
  | name (word : Word)
  | int (word : Word)
  | float (word : Word)
  | string (word : Word)
  | bool (word : Word)
  | null (word : Word)
  | array (items : List Expr)
  | tuple (items : List Expr)
  | object (entries : List (Expr × Expr))
  | binary (left : Expr) (op : Word) (right : Expr)
  | unary (op : Word) (operand : Expr)
  /-- `object.name` -/
  | member (object : Expr) (name : Word)
  /-- `object[key]` -/
  | index (object key : Expr)
  /-- `object[start:stop:step]` -/
  | slice (object : Expr) (start stop step : Option Expr)
  | call (callee : Expr) (args : List Arg)
  /-- `operand | filter`; anything that a postfix chain can begin with a name may be the filter. -/
  | filter (operand filter : Expr)
  | test (operand : Expr) (negated : Bool) (name : Word)
  /-- `value if test` -/
  | select (value test : Expr)
  /-- `yes if test else no` -/
  | ternary (test yes no : Expr)

/-- What may stand between the parentheses of a call or a parameter list. -/
inductive Arg
  | positional (value : Expr)
  | keyword (name : Word) (value : Expr)
  | spread (value : Expr)

end

instance : Inhabited Expr := ⟨.name default⟩

/-- The name of a kind of expression in messages. -/
def Expr.label : Expr → String
  | .name _ => "identifier"
  | .int _ => "integer_literal"
  | .float _ => "float_literal"
  | .string _ => "string_literal"
  | .bool _ => "boolean_literal"
  | .null _ => "null_literal"
  | .array _ => "array_literal"
  | .tuple _ => "tuple_literal"
  | .object _ => "object_literal"
  | .binary .. => "binary_expression"
  | .unary .. => "unary_expression"
  | .member .. | .index .. | .slice .. => "member_expression"
  | .call .. => "call_expression"
  | .filter .. => "filter_expression"
  | .test .. => "test_expression"
  | .select .. => "select_expression"
  | .ternary .. => "ternary_expression"

def Arg.label : Arg → String
  | .positional e => e.label
  | .keyword .. => "keyword_argument"
  | .spread _ => "spread_expression"

/-! ### The words of an expression -/

mutual

/-- The words of an expression; those of a condition come first. -/
def Expr.words : Expr → List Word
  | .name w | .int w | .float w | .string w | .bool w | .null w => [w]
  | .array es | .tuple es => Expr.wordsOfList es
  | .object entries => Expr.wordsOfEntries entries
  | .binary l op r => l.words ++ op :: r.words
  | .unary op e => op :: e.words
  | .member e w => e.words ++ [w]
  | .index e k => e.words ++ k.words
  | .slice e a b c =>
    e.words ++ (Expr.wordsOfOption a ++ (Expr.wordsOfOption b ++ Expr.wordsOfOption c))
  | .call f args => f.words ++ Arg.wordsOfList args
  | .filter e f => e.words ++ f.words
  | .test e _ w => e.words ++ [w]
  | .select v t => v.words ++ t.words
  | .ternary t y n => t.words ++ (y.words ++ n.words)

def Expr.wordsOfList : List Expr → List Word
  | [] => []
  | e :: es => e.words ++ Expr.wordsOfList es

def Expr.wordsOfOption : Option Expr → List Word
  | none => []
  | some e => e.words

def Expr.wordsOfEntries : List (Expr × Expr) → List Word
  | [] => []
  | p :: ps => Expr.wordsOfEntry p ++ Expr.wordsOfEntries ps

def Expr.wordsOfEntry : Expr × Expr → List Word
  | (k, v) => k.words ++ v.words

def Arg.words : Arg → List Word
  | .positional e | .spread e => e.words
  | .keyword w e => w :: e.words

def Arg.wordsOfList : List Arg → List Word
  | [] => []
  | a :: as => a.words ++ Arg.wordsOfList as

end

/-- The place of an expression, that of its first word. -/
def Expr.pos? (e : Expr) : Option Pos := e.words.head?.map Word.pos

end ChatTemplate
