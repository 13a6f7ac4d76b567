import ChatTemplate.Pos

/-! # Tokens -/

namespace ChatTemplate

/-- The lexical classes. Keywords are names; the grammar tells them apart by their text. -/
inductive TokenKind
  | text
  | comment
  | openStatement
  | closeStatement
  | openExpression
  | closeExpression
  | number
  | string
  | name
  | equals
  | openParen
  | closeParen
  | openCurly
  | closeCurly
  | openSquare
  | closeSquare
  | comma
  | dot
  | colon
  | pipe
  | unary
  | comparison
  | additive
  | multiplicative
  | eof
deriving DecidableEq, Repr, Inhabited

/-- The name of a class in messages. -/
def TokenKind.label : TokenKind → String
  | .text => "TEXT"
  | .comment => "COMMENT"
  | .openStatement => "OPEN_STATEMENT"
  | .closeStatement => "CLOSE_STATEMENT"
  | .openExpression => "OPEN_EXPRESSION"
  | .closeExpression => "CLOSE_EXPRESSION"
  | .number => "NUMERIC_LITERAL"
  | .string => "STRING_LITERAL"
  | .name => "IDENTIFIER"
  | .equals => "EQUALS"
  | .openParen => "OPEN_PAREN"
  | .closeParen => "CLOSE_PAREN"
  | .openCurly => "OPEN_CURLY_BRACKET"
  | .closeCurly => "CLOSE_CURLY_BRACKET"
  | .openSquare => "OPEN_SQUARE_BRACKET"
  | .closeSquare => "CLOSE_SQUARE_BRACKET"
  | .comma => "COMMA"
  | .dot => "DOT"
  | .colon => "COLON"
  | .pipe => "PIPE"
  | .unary => "UNARY_OPERATOR"
  | .comparison => "COMPARISON_BINARY_OPERATOR"
  | .additive => "ADDITIVE_BINARY_OPERATOR"
  | .multiplicative => "MULTIPLICATIVE_BINARY_OPERATOR"
  | .eof => "EOF"

/-- A token and the place of its first character. -/
structure Token where
  kind : TokenKind
  value : String
  pos : Pos
deriving DecidableEq, Repr

/-- What a reader past the last token sees. -/
def Token.pastEnd : Token := ⟨.eof, "", ⟨0, 0⟩⟩

instance : Inhabited Token := ⟨Token.pastEnd⟩

end ChatTemplate
