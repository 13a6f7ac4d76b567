import ChatTemplate.Grammar.Stmt
import ChatTemplate.Layout
import ChatTemplate.Lexeme

/-! # From the text of a template to its program -/

namespace ChatTemplate

inductive CompileFault
  | lexical (fault : LexFault)
  | grammatical (fault : GrammarFault)
deriving DecidableEq, Repr

def CompileFault.report : CompileFault → ErrorReport
  | .lexical e => e.report
  | .grammatical e => e.report

/-- The program of a text whose layout is settled. -/
def Program.ofText (cs : List Char) : Except CompileFault Program :=
  match tokens cs with
  | .error e => .error (.lexical e)
  | .ok ts => (Program.ofTokens ts).mapError .grammatical

/-- The program of a template. -/
def Program.compile (layout : Layout) (source : String) : Except CompileFault Program :=
  Program.ofText (layout.normalize source.toList)

end ChatTemplate
