import ChatTemplate.Expr

/-! # Statements -/

namespace ChatTemplate

/-- What a loop or an assignment binds: one name, or the items of a tuple one by one. -/
inductive Target
  | name (word : Word)
  | tuple (items : List Expr)

inductive LoopSignal
  | break
  | continue
deriving DecidableEq, Repr

/-- The word that gives the signal. -/
def LoopSignal.word : LoopSignal → String
  | .break => "break"
  | .continue => "continue"

inductive Stmt
  | comment (word : Word)
  | text (word : Word)
  | output (value : Expr)
  /-- Further conditions of one statement stand nested in the alternate. -/
  | choice (test : Expr) (body alternate : List Stmt)
  | loop (target : Target) (iterable : Expr) (body default : List Stmt)
  | assign (target value : Expr)
  | capture (target : Expr) (body : List Stmt)
  | defineMacro (name : Word) (params : List Arg) (body : List Stmt)
  | callBlock (callee : Word) (args : List Arg) (params : Option (List Arg)) (body : List Stmt)
  | filterBlock (filter : Expr) (body : List Stmt)
  | control (signal : LoopSignal) (word : Word)

instance : Inhabited Stmt := ⟨.text default⟩

/-- The statements of a template. -/
abbrev Program := List Stmt

def Expr.target? : Expr → Option Target
  | .name w => some (.name w)
  | .tuple items => some (.tuple items)
  | _ => none

def Target.words : Target → List Word
  | .name w => [w]
  | .tuple items => Expr.wordsOfList items

mutual

/-- The words of a statement, in the order in which its parts are kept. -/
def Stmt.words : Stmt → List Word
  | .comment w | .text w | .control _ w => [w]
  | .output e => e.words
  | .choice t body alternate => t.words ++ (Stmt.wordsOfList body ++ Stmt.wordsOfList alternate)
  | .loop t e body default =>
    t.words ++ (e.words ++ (Stmt.wordsOfList body ++ Stmt.wordsOfList default))
  | .assign t v => t.words ++ v.words
  | .capture t body => t.words ++ Stmt.wordsOfList body
  | .defineMacro w params body => w :: (Arg.wordsOfList params ++ Stmt.wordsOfList body)
  | .callBlock w args params body =>
    w :: (Arg.wordsOfList args ++ (Arg.wordsOfList (params.getD []) ++ Stmt.wordsOfList body))
  | .filterBlock f body => f.words ++ Stmt.wordsOfList body

def Stmt.wordsOfList : List Stmt → List Word
  | [] => []
  | s :: ss => s.words ++ Stmt.wordsOfList ss

end

/-- The place of a statement, that of its first word. -/
def Stmt.pos? (s : Stmt) : Option Pos := s.words.head?.map Word.pos

end ChatTemplate
