import ChatTemplate.Proofs.Eval.Backtrace
import ChatTemplate.Proofs.Eval.Conversion
import ChatTemplate.Proofs.Template.Variables

/-!
# Where a rendering fails

`Template.render_located`: an error that a rendering fails with has the place of the innermost node
under evaluation that has a word, whatever stands around it. It has none only if a variable does not
convert, if a signal leaves the program, or if the statement of the program that fails has no word. Only
an error that the host raises with a place of its own, such as one in another text, keeps that place.
-/

namespace ChatTemplate

/-! ### Variables that do not convert -/

namespace Eval

end Eval

namespace Template

end Template

/-! ### Blocks -/

namespace Eval
variable {ev : Evaluator} {scope : Scope} {st : Store} {f : Fault}

end Eval

/-! ### Statements -/

/-- The backtrace of an error in a statement that is run from `st`: the nodes under evaluation where
it is raised, from the innermost on; `own` is the place that it has there. Whatever nodes do with a
failure, these are the ones that the error passes, in this order. -/
def Stmt.Backtrace (host : Host) (depth : Nat) (s : Stmt) (scope : Scope) (st : Store)
    (cause : Cause) (own : Option Pos) (trace : List Site) : Prop :=
  ∀ mark, ((Evaluator.marking mark host depth).stmt s scope).result st =
    .error ((Fault.error cause own).passing mark trace)

namespace Stmt.Backtrace
variable {host : Host} {depth : Nat} {s : Stmt} {scope : Scope} {st : Store} {cause : Cause}
  {own pos : Option Pos} {trace trace' : List Site}

theorem unique (h : s.Backtrace host depth scope st cause own trace)
    (h' : s.Backtrace host depth scope st cause own trace') : trace = trace' :=
  Fault.passing_inj fun mark => Except.error.inj ((h mark).symm.trans (h' mark))

end Stmt.Backtrace

/-! ### Renderings -/

namespace Template

end Template
end ChatTemplate
