import ChatTemplate.Eval.Stmt
import ChatTemplate.Proofs.Carrier.Filters

/-!
# Evaluation with keywords in the list of arguments

The evaluator that hands over lists (`Passed.within`): calls and filters settle what they answer, and
a list is handed over only if its keywords come last. Whatever happened where keywords are kept or
misplaced, it is the evaluator that keeps them apart (`Passed.within_eq`): neither ever occurs.
-/

namespace ChatTemplate.Passed
variable (breach : Breach) (host : Host) (ev : Evaluator)

/-- Evaluates the arguments of a call from left to right, adding them to those that are given. All
keywords together are one argument, the last one. -/
def args (scope : Scope) : List Arg → List Passed → Slots String Value → Eval (List Passed)
  | [], positional, kws =>
    return if kws.isEmpty then positional else positional ++ [.keywords kws]
  | .positional e :: rest, positional, kws => do
    let v ← ev.expr e scope
    args scope rest (positional ++ [.value v]) kws
  | .keyword w e :: rest, positional, kws => do
    let v ← ev.expr e scope
    args scope rest positional (kws.put w.text v)
  | .spread e :: rest, positional, kws => do
    match ← ev.expr e scope with
    | .array items => args scope rest (positional ++ items.map .value) kws
    | v => Eval.fail (.notUnpackable v.kind)

theorem args_given (scope : Scope) (as : List Arg) (given : Args) :
    args ev scope as (given.positional.map .value) given.keywords =
      Args.passed <$> Eval.args ev scope as given := by
  induction as generalizing given with
  | nil =>
    rw [args, Eval.args, map_pure]
    refine congrArg pure ?_
    unfold Args.passed
    split <;> simp
  | cons arg as ih =>
    cases arg with
    | positional e =>
      rw [args, Eval.args, map_bind]
      refine bind_congr fun v => ?_
      rw [← ih, List.map_append]
      rfl
    | keyword w e =>
      rw [args, Eval.args, map_bind]
      exact bind_congr fun v => ih { given with keywords := given.keywords.put w.text v }
    | spread e =>
      rw [args, Eval.args, map_bind]
      refine bind_congr fun v => ?_
      cases v with
      | array items =>
        dsimp only
        rw [← ih, List.map_append]
      | _ => rfl

theorem args_nil (scope : Scope) (as : List Arg) :
    args ev scope as [] [] = Args.passed <$> Eval.args ev scope as Args.none :=
  args_given ev scope as Args.none

def callValue (v : Value) (args : List Passed) (scope : Scope) : Eval Passed := do
  match v with
  | .function r => callFunction breach ev host ((← get).function r) args scope
  | v => Eval.fail (.notCallable v.kind)

theorem callValue_passed (v : Value) (a : Args) (scope : Scope) :
    callValue breach host ev v a.passed scope = value <$> Eval.callValue ev host v a scope := by
  cases v with
  | function r =>
    unfold callValue Eval.callValue
    rw [map_bind]
    exact bind_congr fun st => callFunction_passed a breach ev host _ scope
  | _ => rfl

def filterBy (scope : Scope) (v : Value) : Expr → Eval Passed
  | .name w => applyFilter breach host scope w.text [] v
  | .call (.name w) as => do applyFilter breach host scope w.text (← args ev scope as [] []) v
  | .call callee _ => Eval.fail (.unknownFilter callee.label none)
  | e => Eval.fail (.unknownFilter e.label none)

theorem filterBy_eq (scope : Scope) (v : Value) (e : Expr) :
    filterBy breach host ev scope v e = value <$> Eval.filterBy host ev scope v e := by
  cases e with
  | name w => exact applyFilter_passed breach host scope [] _ [] v
  | call callee as =>
    cases callee with
    | name w =>
      unfold filterBy Eval.filterBy
      dsimp only
      rw [args_nil, bind_map_left, map_bind]
      exact bind_congr fun a => applyFilter_passed breach host scope a.keywords _ a.positional v
    | _ => rfl
  | _ => rfl

/-- What is answered and is a value is settled as it is. -/
theorem settle_value (m : Eval Value) : (value <$> m) >>= settle breach = m := by
  rw [bind_map_left]
  exact bind_pure m

def exprInner (e : Expr) (scope : Scope) : Eval Value := do
  match e with
  | .call f as =>
    let args ← args ev scope as [] []
    settle breach (← callValue breach host ev (← ev.expr f scope) args scope)
  | .filter e f => settle breach (← filterBy breach host ev scope (← ev.expr e scope) f)
  | e => Eval.exprInner host ev e scope

theorem exprInner_eq : exprInner breach host ev = Eval.exprInner host ev := by
  funext e scope
  cases e with
  | call f as =>
    show (args ev scope as [] [] >>= fun args => ev.expr f scope >>= fun v =>
      callValue breach host ev v args scope >>= settle breach) = _
    rw [args_nil, bind_map_left]
    refine bind_congr fun a => bind_congr fun v => ?_
    rw [callValue_passed, settle_value]
  | filter e f =>
    refine bind_congr fun v => ?_
    rw [filterBy_eq]
    exact settle_value breach _
  | _ => rfl

def callBlock (scope : Scope) (callee : Word) (as params : List Arg) (body : List Stmt) :
    Eval Value := do
  let names ← params.mapM Eval.callerParam
  let args ← args ev scope as [] []
  let f ← ev.expr (.name callee) scope
  let inner ← Eval.innerScope scope
  Eval.bind inner "caller" (← Eval.newFunction (.caller names body scope))
  settle breach (← callValue breach host ev f args inner)

theorem callBlock_eq (scope : Scope) (callee : Word) (as params : List Arg) (body : List Stmt) :
    callBlock breach host ev scope callee as params body =
      Eval.callBlock host ev scope callee as params body := by
  unfold callBlock Eval.callBlock
  refine bind_congr fun names => ?_
  rw [args_nil, bind_map_left]
  refine bind_congr fun a => bind_congr fun f => bind_congr fun inner => bind_congr fun g =>
    bind_congr fun _ => ?_
  rw [callValue_passed]
  exact settle_value breach _

def stmtInner (s : Stmt) (scope : Scope) : Eval Flow := do
  match s with
  | .callBlock callee as params body =>
    Eval.output (← callBlock breach host ev scope callee as (params.getD []) body)
  | .filterBlock f body =>
    let t ← Eval.closedBlock ev scope body
    Eval.output (← settle breach (← filterBy breach host ev scope (.string t) f))
  | s => Eval.stmtInner host ev s scope

theorem stmtInner_eq : stmtInner breach host ev = Eval.stmtInner host ev := by
  funext s scope
  cases s with
  | callBlock callee as params body =>
    unfold stmtInner Eval.stmtInner
    dsimp only
    rw [callBlock_eq]
  | filterBlock f body =>
    refine bind_congr fun t => ?_
    rw [filterBy_eq, ← bind_assoc]
    exact congrArg (· >>= Eval.output) (settle_value breach _)
  | _ => rfl

def expr (e : Expr) (scope : Scope) : Eval Value :=
  tryCatch (exprInner breach host ev e scope) fun f => throw (f.locate e.pos?)

def stmt (s : Stmt) (scope : Scope) : Eval Flow :=
  tryCatch (stmtInner breach host ev s scope) fun f => throw (f.locate s.pos?)

/-- Evaluates what nests at most `n` deep, handing over lists of arguments. -/
def within : Nat → Evaluator
  | 0 => ⟨fun _ _ => throw .endless, fun _ _ => throw .endless⟩
  | n + 1 => ⟨expr breach host (within n), stmt breach host (within n)⟩

theorem within_eq (n : Nat) : within breach host n = Evaluator.within host n := by
  induction n with
  | zero => rfl
  | succ n ih =>
    have hexpr : expr breach host (Evaluator.within host n) =
        Eval.expr host (Evaluator.within host n) := by
      unfold expr Eval.expr
      rw [exprInner_eq]
    have hstmt : stmt breach host (Evaluator.within host n) =
        Eval.stmt host (Evaluator.within host n) := by
      unfold stmt Eval.stmt
      rw [stmtInner_eq]
    rw [within, ih, hexpr, hstmt, Evaluator.within]

/-- Keywords that are handed over as an argument are never bound, kept or answered, and never before
the end of a list: whatever happened there, evaluation would be the same. The list of a call is cut
into the values that are written positionally or spread, and the keywords that are written. -/
theorem keywords_never_stray (n : Nat) :
    within breach host n = Evaluator.within host n ∧
    ∀ (scope : Scope) (as : List Arg), split <$> args ev scope as [] [] =
      (fun a : Args => (a.positional.map value, a.keywords)) <$> Eval.args ev scope as Args.none := by
  refine ⟨within_eq breach host n, fun scope as => ?_⟩
  rw [args_nil, Functor.map_map]
  exact congrArg (· <$> Eval.args ev scope as Args.none) (funext split_passed)

end ChatTemplate.Passed
