import ChatTemplate.Grammar.Stmt

/-!
# What an accepted text spells

`Spelled x ps`: the chunks `ps`, from the left to the right, are a way to write the phrase `x`. The
relation has one rule for each way the readers build a node and leaves out what they do about
precedence. A chunk says what becomes of its tokens: a word of the tree (`Chunk.kept`), or a
keyword, a mark, and inside square brackets a token that no node is built from (`Chunk.dropped`).
-/

namespace ChatTemplate

/-- Is what is written in a token of this class content of the template? -/
def TokenKind.hasContent : TokenKind → Bool
  | .text | .comment | .number | .string | .name => true
  | _ => false

/-- Is a token of this class neither content nor the end? -/
def TokenKind.isMark (kind : TokenKind) : Bool := !kind.hasContent && kind != .eof

/-- Is this an operator between or before operands? -/
def TokenKind.isOperator : TokenKind → Bool
  | .comparison | .additive | .multiplicative => true
  | _ => false

/-- Is the token a name that is no literal? -/
def Token.isPlainName (t : Token) : Bool :=
  t.kind == .name && !Grammar.isBoolName t.value && !Grammar.isNullName t.value

/-- The names that the grammar takes for itself in some place. -/
def keywords : List String :=
  ["set", "if", "macro", "for", "call", "filter", "elif", "else", "endset", "endif", "endmacro",
    "endfor", "endcall", "endfilter", "in", "is", "not"]

/-- The value of string literals that stand side by side. -/
def joined (first : Word) (more : List Word) : Word :=
  ⟨first.text ++ String.join (more.map Word.text), first.pos⟩

/-- Some tokens that stand side by side, by what becomes of them. -/
inductive Chunk
  /-- A token that is a word of the tree. -/
  | leaf (kind : TokenKind) (word : Word) (content : kind.hasContent ∨ kind.isOperator := by decide)
  /-- String literals that are one word of the tree. -/
  | strings (first : Word) (more : List Word)
  /-- The operator of two names. -/
  | notIn (pos inPos : Pos)
  | keyword (text : String) (pos : Pos) (mem : text ∈ keywords := by decide)
  | mark (kind : TokenKind) (word : Word) (mark : kind.isMark := by decide)
  /-- Tokens that nothing is kept of, whatever they would become elsewhere. -/
  | dropped (chunk : Chunk)

namespace Chunk

def tokens : Chunk → List Token
  | .leaf kind w _ => [⟨kind, w.text, w.pos⟩]
  | .strings w more => (w :: more).map fun w => ⟨.string, w.text, w.pos⟩
  | .notIn pos inPos => [⟨.name, "not", pos⟩, ⟨.name, "in", inPos⟩]
  | .keyword text pos _ => [⟨.name, text, pos⟩]
  | .mark kind w _ => [⟨kind, w.text, w.pos⟩]
  | .dropped p => p.tokens

/-- The word of the tree that the tokens become. -/
def kept : Chunk → Option Word
  | .leaf _ w _ => some w
  | .strings w more => some (joined w more)
  | .notIn pos _ => some ⟨"not in", pos⟩
  | .keyword .. | .mark .. | .dropped _ => none

/-- The tokens of chunks, from the left to the right. -/
def flat (ps : List Chunk) : List Token := ps.flatMap tokens

/-- The words that chunks become, from the left to the right. -/
def words (ps : List Chunk) : List Word := ps.filterMap kept

/-- Chunks between two marks. -/
def between {o c : TokenKind} (wo wc : Word) (ps : List Chunk)
    (ho : o.isMark := by decide) (hc : c.isMark := by decide) : List Chunk :=
  .mark o wo ho :: (ps ++ [.mark c wc hc])

/-- The beginning of a statement: its mark and its word. -/
def opening (o : Word) (text : String) (pos : Pos) (mem : text ∈ keywords := by decide) : List Chunk :=
  [.mark .openStatement o, .keyword text pos mem]

/-- The end of a statement. -/
def close (c : Word) : Chunk := .mark .closeStatement c

@[simp] theorem mark_closeStatement (c : Word) : .mark .closeStatement c = close c := rfl

/-- A whole statement that is one word. -/
def ending (o c : Word) (text : String) (pos : Pos) (mem : text ∈ keywords := by decide) :
    List Chunk :=
  opening o text pos mem ++ [close c]

/-- Do the chunks begin with a name that is no literal? -/
def beginWithName (ps : List Chunk) : Bool := (flat ps).head?.any Token.isPlainName

end Chunk

/-! ### Filters -/

def Expr.isName : Expr → Bool
  | .name _ => true
  | _ => false

/-- A call of a name, and any calls, members and subscripts behind it. -/
def Expr.invoked : Expr → Bool
  | .call f _ => f.isName || f.invoked
  | .member e _ | .index e _ | .slice e _ _ _ => e.invoked
  | _ => false

/-- Is the expression a name or the call of a name? -/
def Expr.namesFilter : Expr → Bool
  | .name _ | .call (.name _) _ => true
  | _ => false

/-- What the grammar takes behind `|`. -/
def Expr.filterForm (f : Expr) : Bool := f.isName || f.invoked

/-! ### Phrases -/

/-- What a reader returns, with what it is a part of. -/
inductive Phrase
  | expr (e : Expr)
  | entry (key value : Expr)
  | arg (a : Arg)
  /-- Items with commas between them. -/
  | list (xs : List Phrase)
  /-- Arguments or parameters in parentheses; a call block may have no parameters at all. -/
  | args (as : Option (List Arg))
  /-- What stands between square brackets, and whether a colon is among it. -/
  | parts (colon : Bool) (parts : List (Option Expr))
  | stmt (s : Stmt)
  /-- A choice between its first word and its end. -/
  | choice (s : Stmt)
  | block (ss : List Stmt)
  /-- The statements behind `else`, if it is there. -/
  | otherwise (ss : List Stmt)

open Chunk in
inductive Spelled : Phrase → List Chunk → Prop
  | name (w : Word) : Spelled (.expr (.name w)) [.leaf .name w]
  | bool {w : Word} (h : Grammar.isBoolName w.text) : Spelled (.expr (.bool w)) [.leaf .name w]
  | null {w : Word} (h : Grammar.isNullName w.text) : Spelled (.expr (.null w)) [.leaf .name w]
  | int {w : Word} (h : '.' ∉ w.text.toList) : Spelled (.expr (.int w)) [.leaf .number w]
  | float {w : Word} (h : '.' ∈ w.text.toList) : Spelled (.expr (.float w)) [.leaf .number w]
  | string (w : Word) (more : List Word) :
    Spelled (.expr (.string (joined w more))) [.strings w more]
  | parens {e ps o c} (he : Spelled (.expr e) ps) :
    Spelled (.expr e) (between o c ps (o := .openParen) (c := .closeParen))
  | tuple {es ps} (hes : Spelled (.list (es.map .expr)) ps) : Spelled (.expr (.tuple es)) ps
  | array {es ps o c} (hes : Spelled (.list (es.map .expr)) ps) :
    Spelled (.expr (.array es)) (between o c ps (o := .openSquare) (c := .closeSquare))
  | object {entries ps o c} (h : Spelled (.list (entries.map fun p => .entry p.1 p.2)) ps) :
    Spelled (.expr (.object entries)) (between o c ps (o := .openCurly) (c := .closeCurly))
  | binary {l r op ps qs kind hk} (hl : Spelled (.expr l) ps) (hr : Spelled (.expr r) qs) :
    Spelled (.expr (.binary l op r)) (ps ++ .leaf kind op hk :: qs)
  | notIn {l r pos inPos ps qs} (hl : Spelled (.expr l) ps) (hr : Spelled (.expr r) qs) :
    Spelled (.expr (.binary l ⟨"not in", pos⟩ r)) (ps ++ .notIn pos inPos :: qs)
  | unary {op e ps} (he : Spelled (.expr e) ps) :
    Spelled (.expr (.unary op e)) (.leaf .name op :: ps)
  | member {e w ps d} (he : Spelled (.expr e) ps) :
    Spelled (.expr (.member e w)) (ps ++ [.mark .dot d, .leaf .name w])
  /-- Of several expressions between the brackets, without a colon, the first is the key. -/
  | index {e key more ps qs rs o c} (he : Spelled (.expr e) ps) (hkey : Spelled (.expr key) qs)
      (hmore : Spelled (.parts false more) rs) :
    Spelled (.expr (.index e key))
      (ps ++ between o c (qs ++ rs.map .dropped) (o := .openSquare) (c := .closeSquare))
  | slice {e parts ps qs o c} (he : Spelled (.expr e) ps) (hparts : Spelled (.parts true parts) qs)
      (hlength : parts.length ≤ 3) :
    Spelled (.expr (.slice e parts[0]?.join parts[1]?.join parts[2]?.join))
      (ps ++ between o c qs (o := .openSquare) (c := .closeSquare))
  | call {f as ps qs} (hf : Spelled (.expr f) ps) (has : Spelled (.args (some as)) qs) :
    Spelled (.expr (.call f as)) (ps ++ qs)
  | filter {e f w ps qs m} (he : Spelled (.expr e) ps)
      (hf : Spelled (.expr f) (.leaf .name w :: qs)) (hform : f.filterForm) :
    Spelled (.expr (.filter e f)) (ps ++ .mark .pipe m :: .leaf .name w :: qs)
  | test {e w ps pos} (he : Spelled (.expr e) ps) :
    Spelled (.expr (.test e false w)) (ps ++ [.keyword "is" pos, .leaf .name w])
  | testNot {e w ps pos notPos} (he : Spelled (.expr e) ps) :
    Spelled (.expr (.test e true w)) (ps ++ [.keyword "is" pos, .keyword "not" notPos, .leaf .name w])
  | select {v t ps qs pos} (hv : Spelled (.expr v) ps) (ht : Spelled (.expr t) qs) :
    Spelled (.expr (.select v t)) (ps ++ .keyword "if" pos :: qs)
  | ternary {t y n ps qs rs pos elsePos} (hy : Spelled (.expr y) ps) (ht : Spelled (.expr t) qs)
      (hn : Spelled (.expr n) rs) :
    Spelled (.expr (.ternary t y n)) (ps ++ .keyword "if" pos :: (qs ++ .keyword "else" elsePos :: rs))
  | entry {k v ps qs m} (hk : Spelled (.expr k) ps) (hv : Spelled (.expr v) qs) :
    Spelled (.entry k v) (ps ++ .mark .colon m :: qs)
  | positional {e ps} (he : Spelled (.expr e) ps) : Spelled (.arg (.positional e)) ps
  | keyword {w e ps qs m} (hw : Spelled (.expr (.name w)) ps) (he : Spelled (.expr e) qs) :
    Spelled (.arg (.keyword w e)) (ps ++ .mark .equals m :: qs)
  | spread {e ps pos} (he : Spelled (.expr e) ps) :
    Spelled (.arg (.spread e)) (.mark .multiplicative ⟨"*", pos⟩ :: ps)
  | noItem : Spelled (.list []) []
  | lastItem {x ps} (hx : Spelled x ps) : Spelled (.list [x]) ps
  | item {x xs ps qs m} (hx : Spelled x ps) (hxs : Spelled (.list xs) qs) :
    Spelled (.list (x :: xs)) (ps ++ .mark .comma m :: qs)
  | noArgs : Spelled (.args none) []
  | args {as ps o c} (h : Spelled (.list (as.map .arg)) ps) :
    Spelled (.args (some as)) (between o c ps (o := .openParen) (c := .closeParen))
  | noPart : Spelled (.parts false []) []
  | absentPart {colon parts ps m} (h : Spelled (.parts colon parts) ps) :
    Spelled (.parts true (none :: parts)) (.mark .colon m :: ps)
  | lastPart {colon e parts ps qs} (he : Spelled (.expr e) ps) (h : Spelled (.parts colon parts) qs) :
    Spelled (.parts colon (some e :: parts)) (ps ++ qs)
  | part {colon e parts ps qs m} (he : Spelled (.expr e) ps) (h : Spelled (.parts colon parts) qs) :
    Spelled (.parts true (some e :: parts)) (ps ++ .mark .colon m :: qs)
  | comment (w : Word) : Spelled (.stmt (.comment w)) [.leaf .comment w]
  | text (w : Word) : Spelled (.stmt (.text w)) [.leaf .text w]
  | output {e ps o c} (he : Spelled (.expr e) ps) :
    Spelled (.stmt (.output e)) (between o c ps (o := .openExpression) (c := .closeExpression))
  | assign {t v ps qs o m c pos} (ht : Spelled (.expr t) ps) (hv : Spelled (.expr v) qs) :
    Spelled (.stmt (.assign t v)) (opening o "set" pos ++ (ps ++ .mark .equals m :: (qs ++ [close c])))
  | capture {t body ps qs o c pos o' c' pos'} (ht : Spelled (.expr t) ps)
      (hbody : Spelled (.block body) qs) :
    Spelled (.stmt (.capture t body))
      (opening o "set" pos ++ (ps ++ close c :: (qs ++ ending o' c' "endset" pos')))
  | ofChoice {s ps o pos o' c' pos'} (h : Spelled (.choice s) ps) :
    Spelled (.stmt s) (opening o "if" pos ++ (ps ++ ending o' c' "endif" pos'))
  | choice {t body alternate ps qs rs c} (ht : Spelled (.expr t) ps)
      (hbody : Spelled (.block body) qs) (halternate : Spelled (.otherwise alternate) rs) :
    Spelled (.choice (.choice t body alternate)) (ps ++ close c :: (qs ++ rs))
  | choiceElif {t body s ps qs rs c o pos} (ht : Spelled (.expr t) ps)
      (hbody : Spelled (.block body) qs) (hs : Spelled (.choice s) rs) :
    Spelled (.choice (.choice t body [s])) (ps ++ close c :: (qs ++ (opening o "elif" pos ++ rs)))
  | loop {e target i body default ps qs rs us o pos inPos c o' c' pos'} (he : Spelled (.expr e) ps)
      (htarget : e.target? = some target) (hi : Spelled (.expr i) qs)
      (hbody : Spelled (.block body) rs) (hdefault : Spelled (.otherwise default) us) :
    Spelled (.stmt (.loop target i body default))
      (opening o "for" pos ++ (ps ++ .keyword "in" inPos ::
        (qs ++ close c :: (rs ++ (us ++ ending o' c' "endfor" pos')))))
  | defineMacro {w params body ps qs rs o pos c o' c' pos'} (hw : Spelled (.expr (.name w)) ps)
      (hparams : Spelled (.args (some params)) qs) (hbody : Spelled (.block body) rs) :
    Spelled (.stmt (.defineMacro w params body))
      (opening o "macro" pos ++ (ps ++ (qs ++ close c :: (rs ++ ending o' c' "endmacro" pos'))))
  | callBlock {w as params body ps qs rs us o pos c o' c' pos'} (hparams : Spelled (.args params) ps)
      (hw : Spelled (.expr (.name w)) qs) (has : Spelled (.args (some as)) rs)
      (hbody : Spelled (.block body) us) :
    Spelled (.stmt (.callBlock w as params body))
      (opening o "call" pos ++ (ps ++ (qs ++ (rs ++ close c :: (us ++ ending o' c' "endcall" pos')))))
  /-- Where what stands behind the word begins with a name, it has the form of a filter. -/
  | filterBlock {f body ps qs o pos c o' c' pos'} (hf : Spelled (.expr f) ps)
      (hform : beginWithName ps → f.filterForm)
      (hbody : Spelled (.block body) qs) :
    Spelled (.stmt (.filterBlock f body))
      (opening o "filter" pos ++ (ps ++ close c :: (qs ++ ending o' c' "endfilter" pos')))
  | control {signal : LoopSignal} {w o c} (h : w.text = signal.word) :
    Spelled (.stmt (.control signal w)) [.mark .openStatement o, .leaf .name w, close c]
  | noStmt : Spelled (.block []) []
  | stmts {s ss ps qs} (hs : Spelled (.stmt s) ps) (hss : Spelled (.block ss) qs) :
    Spelled (.block (s :: ss)) (ps ++ qs)
  | noElse : Spelled (.otherwise []) []
  | otherwise {ss ps o pos c} (h : Spelled (.block ss) ps) :
    Spelled (.otherwise ss) (opening o "else" pos ++ close c :: ps)

end ChatTemplate
