import ChatTemplate.ErrorReport
import ChatTemplate.Text.Alphanumeric
import ChatTemplate.Text.Blank
import ChatTemplate.Text.Digit
import ChatTemplate.Token

/-!
# Lexemes

`Lexeme.scan` takes the next lexeme off a text that is not empty. Nothing is lost: the text is the
skipped blanks, the characters of the lexeme and the rest, in this order. What is a lexeme depends
on the one before and on the number of curly brackets that are open.
-/

namespace ChatTemplate

inductive LexCause
  | endOfInput
  | unclosedComment
  | badCharacter (c : Char)
  | badEscape (c : Char)
deriving DecidableEq, Repr

def LexCause.message : LexCause → String
  | .endOfInput => "Unexpected end of input"
  | .unclosedComment => "Missing end of comment tag"
  | .badCharacter c => s!"Unexpected character: {c}"
  | .badEscape c => s!"Unexpected escaped character: {c}"

/-- A failed scan, and what it had consumed up to the place it complains about. -/
structure LexFailure where
  cause : LexCause
  consumed : List Char
deriving DecidableEq, Repr

structure Lexeme where
  /-- The blanks that were skipped. -/
  gap : List Char
  text : List Char
  kind : TokenKind
  value : List Char
  rest : List Char
deriving DecidableEq, Repr

namespace Lexeme
open Text

/-- The operators and brackets; of two that fit, the first is taken. -/
def operators : List (List Char × TokenKind) := [
  (['{', '%'], .openStatement),
  (['%', '}'], .closeStatement),
  (['{', '{'], .openExpression),
  (['}', '}'], .closeExpression),
  (['('], .openParen),
  ([')'], .closeParen),
  (['{'], .openCurly),
  (['}'], .closeCurly),
  (['['], .openSquare),
  ([']'], .closeSquare),
  ([','], .comma),
  (['.'], .dot),
  ([':'], .colon),
  (['|'], .pipe),
  (['<', '='], .comparison),
  (['>', '='], .comparison),
  (['=', '='], .comparison),
  (['!', '='], .comparison),
  (['<'], .comparison),
  (['>'], .comparison),
  (['+'], .additive),
  (['-'], .additive),
  (['~'], .additive),
  (['*'], .multiplicative),
  (['/'], .multiplicative),
  (['%'], .multiplicative),
  (['='], .equals)]

/-- What a character after a backslash stands for in a string literal. -/
def escape? : Char → Option Char
  | 'n' => some '\n'
  | 't' => some '\t'
  | 'r' => some '\r'
  | 'b' => some '\x08'
  | 'f' => some '\x0C'
  | 'v' => some '\x0B'
  | '\'' => some '\''
  | '"' => some '"'
  | '\\' => some '\\'
  | _ => none

/-- Literal text goes on after such a lexeme, and at the start. -/
def endsTag : Option TokenKind → Bool
  | none | some .closeStatement | some .closeExpression | some .comment => true
  | _ => false

/-- A sign right after such a lexeme joins two operands. -/
def endsOperand : Option TokenKind → Bool
  | some .name | some .number | some .string | some .closeParen | some .closeSquare => true
  | _ => false

/-- Does a brace followed by `cs` open a tag? -/
def opensTag : List Char → Bool
  | c :: _ => c == '%' || c == '{' || c == '#'
  | [] => false

/-- The text up to the next tag, and the rest. -/
def splitAtTag : List Char → List Char × List Char
  | [] => ([], [])
  | c :: cs =>
    if c == '{' && opensTag cs then ([], c :: cs)
    else
      let (text, rest) := splitAtTag cs
      (c :: text, rest)

/-- The body of a comment that is already open, and what follows its end. -/
def commentBody? : List Char → Option (List Char × List Char)
  | [] => none
  | c :: cs =>
    if c == '#' && cs.head? == some '}' then some ([], cs.tail)
    else (commentBody? cs).map fun (body, rest) => (c :: body, rest)

/-- The longest front of a text that satisfies `p`. It may not reach the end. -/
def takeRun (p : Char → Bool) (cs : List Char) : Except LexFailure (List Char × List Char) :=
  match cs.dropWhile p with
  | [] => if cs.isEmpty then .ok ([], []) else .error ⟨.endOfInput, cs⟩
  | c :: rest => .ok (cs.takeWhile p, c :: rest)

/-- Puts `front` before what a failed scan had consumed. -/
def afterConsuming {α : Type} (front : List Char) : Except LexFailure α → Except LexFailure α
  | .ok x => .ok x
  | .error e => .error ⟨e.cause, front ++ e.consumed⟩

/-- Digits with an optional fraction. -/
def takeNumber (cs : List Char) : Except LexFailure (List Char × List Char) := do
  let (whole, rest) ← takeRun (isDigit ·) cs
  match rest with
  | '.' :: d :: more =>
    if isDigit d then
      let (fraction, rest) ← afterConsuming (whole ++ ['.']) (takeRun (isDigit ·) (d :: more))
      return (whole ++ '.' :: fraction, rest)
    else return (whole, rest)
  | _ => return (whole, rest)

/-- A string literal after its opening quote: the value, the body as written and what follows the
closing quote. -/
def takeString (quote : Char) : List Char → Except LexFailure (List Char × List Char × List Char)
  | [] => .error ⟨.endOfInput, []⟩
  | c :: cs =>
    if c == quote then .ok ([], [], cs)
    else if c == '\\' then
      match cs with
      | [] => .error ⟨.endOfInput, [c]⟩
      | e :: cs =>
        match escape? e with
        | none => .error ⟨.badEscape e, [c, e]⟩
        | some v => do
          let (value, body, rest) ← afterConsuming [c, e] (takeString quote cs)
          return (v :: value, c :: e :: body, rest)
    else do
      let (value, body, rest) ← afterConsuming [c] (takeString quote cs)
      return (c :: value, c :: body, rest)

/-- The first operator that `cs` begins with. Two curly brackets close as one token only where no
curly bracket is open. -/
def operator? (depth : Int) (cs : List Char) : Option (List Char × TokenKind) :=
  operators.find? fun (op, kind) =>
    op.isPrefixOf cs && !(kind == .closeExpression && decide (0 < depth))

/-- The lexeme at the front of a text inside a tag that does not begin with a blank. -/
def scanInTag (last : Option TokenKind) (depth : Int) (cs : List Char) :
    Except LexFailure Lexeme :=
  match cs with
  | [] => .error ⟨.endOfInput, []⟩
  | c :: rest =>
    if (c == '+' || c == '-') && !endsOperand last then
      if rest.head?.any (isDigit ·) then do
        let (digits, rest) ← afterConsuming [c] (takeNumber rest)
        return ⟨[], c :: digits, .number, c :: digits, rest⟩
      else .ok ⟨[], [c], .unary, [c], rest⟩
    else match operator? depth cs with
    | some (op, kind) => .ok ⟨[], op, kind, op, cs.drop op.length⟩
    | none =>
      if c == '"' || c == '\'' then do
        let (value, body, rest) ← afterConsuming [c] (takeString c rest)
        return ⟨[], c :: body ++ [c], .string, value, rest⟩
      else if isDigit c then do
        let (digits, rest) ← takeNumber cs
        return ⟨[], digits, .number, digits, rest⟩
      else if isWordChar c then do
        let (word, rest) ← takeRun (isWordChar ·) cs
        return ⟨[], word, .name, word, rest⟩
      else .error ⟨.badCharacter c, []⟩

/-- The lexeme inside a tag, after the blanks before it. -/
def scanAfterBlanks (last : Option TokenKind) (depth : Int) (cs : List Char) :
    Except LexFailure Lexeme := do
  let (gap, rest) ← takeRun (isBlank ·) cs
  let lexeme ← afterConsuming gap (scanInTag last depth rest)
  return { lexeme with gap }

/-- The next lexeme of a text, where `last` is the kind of the one before and `depth` curly brackets
are open. -/
def scan (last : Option TokenKind) (depth : Int) (cs : List Char) : Except LexFailure Lexeme :=
  let (text, rest) := if endsTag last then splitAtTag cs else ([], cs)
  if !text.isEmpty then .ok ⟨[], text, .text, text, rest⟩
  else if ['{', '#'].isPrefixOf cs then
    match commentBody? (cs.drop 2) with
    | some (body, rest) => .ok ⟨[], '{' :: '#' :: body ++ ['#', '}'], .comment, body, rest⟩
    | none => .error ⟨.unclosedComment, []⟩
  else scanAfterBlanks last depth cs

end Lexeme

/-- The number of open curly brackets after a token; an expression starts anew. -/
def TokenKind.depthAfter (kind : TokenKind) (depth : Int) : Int :=
  match kind with
  | .openExpression => 0
  | .openCurly => depth + 1
  | .closeCurly => depth - 1
  | _ => depth

structure LexFault where
  cause : LexCause
  pos : Pos
deriving DecidableEq, Repr

def LexFault.report (e : LexFault) : ErrorReport := ⟨.lexical, e.cause.message, some e.pos⟩

/-- The tokens of a text that stands at `pos`. Each takes a character, so that `n` of them are
enough for a text of `n` characters. -/
def tokensFrom (last : Option TokenKind) (depth : Int) (pos : Pos) :
    Nat → List Char → Except LexFault (List Token)
  | 0, _ | _, [] => .ok [⟨.eof, "", pos⟩]
  | n + 1, cs =>
    match Lexeme.scan last depth cs with
    | .error e => .error ⟨e.cause, pos.after e.consumed⟩
    | .ok x => do
      let here := pos.after x.gap
      let tokens ← tokensFrom (some x.kind) (x.kind.depthAfter depth) (here.after x.text) n x.rest
      return ⟨x.kind, String.ofList x.value, here⟩ :: tokens

/-- The tokens of a text whose layout is settled, up to and with the end mark. -/
def tokens (cs : List Char) : Except LexFault (List Token) :=
  tokensFrom none 0 Pos.start cs.length cs

end ChatTemplate
