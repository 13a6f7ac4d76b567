import ChatTemplate.Eval.Basic

/-! # Blocks of statements -/

namespace ChatTemplate.Eval
variable (ev : Evaluator)

/-- Runs statements one after the other, up to a signal, adding their texts to `before`. -/
def block (scope : Scope) (before : Text) : List Stmt → Eval Flow
  | [] => return .text before
  | s :: ss => do
    match ← ev.stmt s scope with
    | .text t => block scope (before ++ t) ss
    | .signal signal t => return .signal signal (before ++ t)

/-- The text of statements that no signal may leave. -/
def closedBlock (scope : Scope) (body : List Stmt) : Eval Text := do
  match ← block ev scope "" body with
  | .text t => return t
  | .signal signal _ => fail (.signalOutsideLoop signal)

end ChatTemplate.Eval
