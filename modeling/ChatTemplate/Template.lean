import ChatTemplate.Compile
import ChatTemplate.Eval.Stmt

/-! # Templates -/

namespace ChatTemplate

/-- The text that a program prints in a scope, nesting at most `depth` deep. -/
def Program.run (host : Host) (depth : Nat) (p : Program) (scope : Scope) : Eval Text :=
  Eval.closedBlock (Evaluator.within host depth) scope p

/-- Evaluates an expression in a scope, nesting at most `depth` deep. -/
def Expr.eval (host : Host) (depth : Nat) (e : Expr) (scope : Scope) : Eval Value :=
  (Evaluator.within host depth).expr e scope

/-- A program that is rendered with variables. -/
structure Template where
  program : Program

namespace Template

/-- The names that every template knows as constants. -/
def constants : List (String × HostValue) :=
  [("false", .bool false), ("False", .bool false), ("true", .bool true), ("True", .bool true),
    ("none", .null), ("None", .null)]

def compile (layout : Layout) (source : String) : Except CompileFault Template :=
  (Program.compile layout source).map Template.mk

def declareAll (scope : Scope) (vars : List (String × HostValue)) : Eval Unit :=
  vars.forM fun (name, h) => do let _ ← Eval.declare scope name h

/-- The scope of a rendering: the variables stand inside a scope of the global functions and the
constants, so that they may shadow these. -/
def scope (vars : List (String × HostValue)) : Eval Scope := do
  let globals ← Eval.rootScope
  declareAll globals constants
  let inner ← Eval.innerScope globals
  declareAll inner vars
  return inner

/-- The text of a template. A keyword takes precedence over a variable of its name. -/
def render (host : Host) (depth : Nat) (t : Template) (vars keywords : List (String × HostValue)) :
    Eval Text := do
  let s ← scope (Slots.putAll (Slots.putAll [] vars) keywords)
  t.program.run host depth s

end Template

/-- What a caller learns of a failed rendering, if it was an error of the template. -/
def Fault.report? : Fault → Option ErrorReport
  | .error cause pos => some ⟨cause.kind, cause.message, pos⟩
  | _ => none

end ChatTemplate
