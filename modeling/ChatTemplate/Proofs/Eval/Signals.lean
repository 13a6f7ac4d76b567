import ChatTemplate.Proofs.Eval.Tame

/-!
# Loop signals

`Stmt.enclosed`: each signal of a statement stands in the body of a loop, with no body of a macro, a
call block, an assignment or a filter block between the two. `Signals` follows a run to a signal that
is not enclosed: through the branches of choices and the `else` of loops without items. The runs that
it follows are those that answer with a signal (`Eval.block_signal_iff`); where such a run is that of
a whole body, the body fails (`Signals.closedBlock`), and where all signals are enclosed there is
none (`Signals.not_enclosed`).
-/

namespace ChatTemplate

/-! ### Signals in the text -/

mutual

/-- Does each signal stand inside a loop of its body? `inside` tells whether the statement does. -/
def Stmt.enclosed (inside : Bool) : Stmt → Bool
  | .comment _ | .text _ | .output _ | .assign .. => true
  | .control .. => inside
  | .choice _ body alternate => Stmt.allEnclosed inside body && Stmt.allEnclosed inside alternate
  | .loop _ _ body default => Stmt.allEnclosed true body && Stmt.allEnclosed inside default
  | .capture _ body | .defineMacro _ _ body | .callBlock _ _ _ body | .filterBlock _ body =>
    Stmt.allEnclosed false body

def Stmt.allEnclosed (inside : Bool) : List Stmt → Bool
  | [] => true
  | s :: ss => s.enclosed inside && Stmt.allEnclosed inside ss

end

theorem Stmt.allEnclosed_iff {inside : Bool} {ss : List Stmt} :
    Stmt.allEnclosed inside ss ↔ ∀ s ∈ ss, s.enclosed inside := by
  induction ss with
  | nil => simp [Stmt.allEnclosed]
  | cons s ss ih => simp [Stmt.allEnclosed, ih]

/-- The signals in the body of a function are enclosed. -/
def Function.enclosed : Function → Bool
  | .defined _ _ body | .caller _ body _ => Stmt.allEnclosed false body
  | _ => true

/-- Is the error reported as that of the signal outside a loop? -/
def Cause.reportsSignal (sig : LoopSignal) (cause : Cause) : Bool :=
  cause.kind == .malformed && cause.message == (Cause.signalOutsideLoop sig).message

def Cause.reportsStray (cause : Cause) : Bool :=
  cause.reportsSignal .break || cause.reportsSignal .continue

theorem Cause.reportsSignal_of_not_reportsStray {cause : Cause} (h : cause.reportsStray = false)
    (sig : LoopSignal) : cause.reportsSignal sig = false := by
  obtain ⟨hbreak, hcontinue⟩ := Bool.or_eq_false_iff.mp h
  cases sig with
  | «break» => exact hbreak
  | «continue» => exact hcontinue

/-- What is reported of a signal begins with a quote. -/
theorem Cause.reportsStray_of_head {cause : Cause}
    (h : cause.message.toList.head? ≠ some (.ofChar '\'')) : cause.reportsStray = false := by
  have hsignal (sig : LoopSignal) : cause.reportsSignal sig = false := by
    have hne : cause.message ≠ (Cause.signalOutsideLoop sig).message := by
      intro heq
      rw [heq] at h
      cases sig <;> exact h rfl
    rw [reportsSignal, beq_false_of_ne hne, Bool.and_false]
  rw [reportsStray, hsignal, hsignal]
  rfl

/-- Operations report an operator or a variable as malformed, and nothing else. -/
theorem Cause.reportsStray_of_ordinary {cause : Cause} (h : cause.ordinary) :
    cause.reportsStray = false := by
  cases cause with
  | unknownOperator op =>
    have hhead : (unknownOperator op).message.toList.head? = some (.ofChar 'U') := by
      simp [message, toString]
    exact reportsStray_of_head (by rw [hhead]; decide)
  | redeclared name =>
    have hhead : (redeclared name).message.toList.head? = some (.ofChar 'V') := by
      simp [message, toString]
    exact reportsStray_of_head (by rw [hhead]; decide)
  | signalOutsideLoop sig => cases h
  | foreign kind message => cases h
  | _ => rfl

/-- The failure is not reported as that of a signal outside a loop. -/
def Fault.KeepsSignals (f : Fault) : Prop := f.Avoids Cause.reportsStray

theorem Fault.keepsSignals_permits : Permits Fault.KeepsSignals :=
  Fault.avoids_permits fun _ => Cause.reportsStray_of_ordinary

theorem Stmt.enclosed_blocks {inside : Bool} {s : Stmt} (h : s.enclosed inside) :
    ∀ x ∈ s.blocks inside, x.2.enclosed x.1 := by
  have hall {b : Bool} {ss : List Stmt} (hss : Stmt.allEnclosed b ss) :
      ∀ x ∈ ss.map (b, ·), x.2.enclosed x.1 :=
    List.forall_mem_map.mpr (Stmt.allEnclosed_iff.mp hss)
  cases s with
  | choice t body alternate =>
    obtain ⟨hbody, halternate⟩ := Bool.and_eq_true_iff.mp h
    rw [Stmt.blocks, List.map_append]
    exact List.forall_mem_append.mpr ⟨hall hbody, hall halternate⟩
  | loop t e body default =>
    obtain ⟨hbody, hdefault⟩ := Bool.and_eq_true_iff.mp h
    exact List.forall_mem_append.mpr ⟨hall hbody, hall hdefault⟩
  | capture _ body | defineMacro _ _ body | callBlock _ _ _ body | filterBlock _ body =>
    exact hall h
  | _ =>
    intro x hx
    cases hx

theorem Expr.tame_of_keepsSignals (e : Expr) : e.Tame Fault.KeepsSignals := by
  cases e with
  | int w | float w => exact .inr (Fault.avoids_escape _)
  | filter e f => exact .inr fun name => Fault.avoids_error none rfl
  | _ => exact trivial

/-- Enclosed signals are all that it takes for the failure to be impossible. -/
theorem Stmt.allTame_of_enclosed {inside : Bool} {ss : List Stmt}
    (h : Stmt.allEnclosed inside ss) : Stmt.AllTame Fault.KeepsSignals inside ss := by
  intro s hs
  have hheld : s.Holds (Expr.Tame Fault.KeepsSignals) (fun b s => s.enclosed b) inside :=
    Stmt.holds_of_blocks (fun _ _ h => Stmt.enclosed_blocks h) Expr.tame_of_keepsSignals inside s
      (Stmt.allEnclosed_iff.mp h s hs)
  refine hheld.mono (fun _ he => he) fun b s hb => ?_
  cases s with
  | control sig w => exact .inl hb
  | filterBlock f body => exact .inr fun name => Fault.avoids_error none rfl
  | _ => exact trivial

theorem Function.tame_of_enclosed {host : Host} (hhost : host.FailsWith Fault.KeepsSignals)
    {f : Function} (h : f.enclosed) : f.Tame host Fault.KeepsSignals := by
  cases f with
  | defined name params body =>
    exact ⟨fun p _ e _ => Expr.all_of_forall Expr.tame_of_keepsSignals e,
      Stmt.allTame_of_enclosed h⟩
  | caller params body home => exact Stmt.allTame_of_enclosed h
  | host f => exact ⟨Fault.avoids_escape _, hhost⟩
  | _ => exact trivial

/-! ### Signals in a run -/

/-- The new scope that a loop, a macro or a call block opens. -/
def Scope.below (s : Scope) (st : Store) : Scope := ⟨st.frames.size, s.chain⟩

namespace Eval

/-- What a loop binds in each round, and the items that it runs over. -/
def loopPlan (ev : Evaluator) (inner : Scope) (target : Target) (iterable : Expr) :
    Eval (Binder × List Value) := do
  let candidates ← loopItems (← ev.expr (loopHeader iterable).1 inner)
  let b ← binder target
  return (b, ← candidates.filterM (passes ev inner b (loopHeader iterable).2))

theorem loop_eq (ev : Evaluator) (scope : Scope) (target : Target) (iterable : Expr)
    (body default : List Stmt) : loop ev scope target iterable body default = (do
      let inner ← innerScope scope
      let (b, items) ← loopPlan ev inner target iterable
      if items.isEmpty then block ev inner "" default
      else rounds ev inner b body items.toArray 0 "" items) := by
  simp only [loop, loopPlan, bind_assoc, pure_bind]

end Eval

namespace Eval

/-- The scope in which the body of a macro runs, its parameters bound. -/
def macroEntry (ev : Evaluator) (name : String) (params : List Param) (a : Args) (scope : Scope) :
    Eval Scope := do
  let inner ← innerScope scope
  if params.length < a.positional.length then
    fail (.macroArity name params.length a.positional.length)
  match a.keywords.names.find? fun k => !(params.map Param.name).contains k with
  | some k => fail (.macroKeyword name k)
  | none => pure ()
  bindParams ev inner a.keywords params a.positional
  return inner

theorem callMacro_eq (ev : Evaluator) (name : String) (params : List Param) (body : List Stmt)
    (a : Args) (scope : Scope) : callMacro ev name params body a scope = (do
      let inner ← macroEntry ev name params a scope
      return .string (← closedBlock ev inner body)) := by
  unfold callMacro macroEntry
  simp only [bind_assoc]
  refine bind_congr fun inner => ?_
  generalize List.find? _ a.keywords.names = unknown
  split
  · rfl
  · cases unknown with
    | none => simp only [pure_bind, bind_assoc]
    | some k => rfl

/-- The scope in which the body of a call block runs, its parameters bound. -/
def callerEntry (params : List String) (a : Args) (scope : Scope) : Eval Scope := do
  let inner ← innerScope scope
  let missing := List.replicate (params.length - a.positional.length) Value.undefined
  bindAll inner params (a.positional ++ missing)
  return inner

theorem callCaller_eq (ev : Evaluator) (params : List String) (body : List Stmt) (scope : Scope)
    (a : Args) : callCaller ev params body scope a = (do
      let inner ← callerEntry params a scope
      return .string (← closedBlock ev inner body)) := by
  simp only [callCaller, callerEntry, bind_assoc, pure_bind]

end Eval

/-- The run of some statements comes to a signal that none of their loops takes. -/
inductive Signals (host : Host) (sig : LoopSignal) : Nat → List Stmt → Scope → Store → Prop
  | control {n w ss scope st} : Signals host sig (n + 1) (.control sig w :: ss) scope st
  | choice {n test body alternate ss scope st v}
      (hv : ((Evaluator.within host n).expr test scope).result st = .ok v)
      (h : Signals host sig n
        (if (((Evaluator.within host n).expr test scope).after st).truthy v then body else alternate)
        scope (((Evaluator.within host n).expr test scope).after st)) :
      Signals host sig (n + 1) (.choice test body alternate :: ss) scope st
  | noItems {n target iterable body default ss scope st b}
      (hitems : (Eval.loopPlan (Evaluator.within host n) (scope.below st) target iterable).result
        (st.pushFrame []) = .ok (b, []))
      (h : Signals host sig n default (scope.below st)
        ((Eval.loopPlan (Evaluator.within host n) (scope.below st) target iterable).after
          (st.pushFrame []))) :
      Signals host sig (n + 1) (.loop target iterable body default :: ss) scope st
  | later {n s ss scope st t}
      (hs : ((Evaluator.within host n).stmt s scope).result st = .ok (.text t))
      (h : Signals host sig n ss scope (((Evaluator.within host n).stmt s scope).after st)) :
      Signals host sig n (s :: ss) scope st

variable {host : Host} {sig : LoopSignal} {n : Nat} {scope : Scope} {st : Store}

namespace Eval

/-- What the evaluation leaves is text. -/
def Texts (m : Eval Flow) : Prop := ∀ st sig t, m.result st ≠ .ok (.signal sig t)

namespace Texts
variable {α : Type}

theorem pure (t : Text) : Texts (Pure.pure (.text t)) := nofun

theorem bind {m : Eval α} {f : α → Eval Flow} (hf : ∀ a, Texts (f a)) : Texts (m >>= f) := by
  intro st sig t h
  obtain ⟨a, -, ha⟩ := result_bind_eq_ok h
  exact hf a _ sig t ha

theorem output (v : Value) : Texts (Eval.output v) := by
  unfold Eval.output
  split
  · exact pure _
  · exact pure _
  · exact bind fun _ => pure _

theorem rounds (ev : Evaluator) (scope : Scope) (b : Binder) (body : List Stmt)
    (items : Array Value) (i : Nat) (before : Text) (vs : List Value) :
    Texts (Eval.rounds ev scope b body items i before vs) := by
  induction vs generalizing i before with
  | nil => exact pure _
  | cons v vs ih =>
    unfold Eval.rounds
    refine bind fun _ => bind fun _ => bind fun _ => bind fun flow => ?_
    cases flow with
    | text t => exact ih _ _
    | signal sig t =>
      cases sig with
      | «break» => exact pure _
      | «continue» => exact ih _ _

end Texts

/-! ### Where signals come from -/

variable {ss : List Stmt}

theorem stmt_result (s : Stmt) : ((Evaluator.within host (n + 1)).stmt s scope).result st =
    ((stmtInner host (Evaluator.within host n) s scope).result st).mapError (·.locate s.pos?) :=
  result_tryCatch_throw _ _ st

theorem stmt_result_of_ok {s : Stmt} {flow : Flow}
    (h : (stmtInner host (Evaluator.within host n) s scope).result st = .ok flow) :
    ((Evaluator.within host (n + 1)).stmt s scope).result st = .ok flow := by
  rw [stmt_result, h]
  rfl

/-- A failure of the body that a statement runs becomes one of the statement. -/
theorem stmt_result_of_error {s : Stmt} {cause : Cause}
    (h : (stmtInner host (Evaluator.within host n) s scope).result st = .error (.error cause none)) :
    ((Evaluator.within host (n + 1)).stmt s scope).result st = .error (.error cause s.pos?) := by
  rw [stmt_result, h]
  rfl

theorem block_of_signal {ev : Evaluator} {s : Stmt} {t : Text} (before : Text)
    (h : (ev.stmt s scope).result st = .ok (.signal sig t)) :
    (block ev scope before (s :: ss)).result st = .ok (.signal sig (before ++ t)) := by
  unfold block
  rw [result_bind_ok h]
  rfl

theorem block_of_text {ev : Evaluator} {s : Stmt} {t : Text} (before : Text)
    (h : (ev.stmt s scope).result st = .ok (.text t)) :
    (block ev scope before (s :: ss)).result st =
      (block ev scope (before ++ t) ss).result ((ev.stmt s scope).after st) := by
  rw [block, result_bind_ok h]

theorem block_of_signals (h : Signals host sig n ss scope st) (before : Text) :
    ∃ t, (block (Evaluator.within host n) scope before ss).result st = .ok (.signal sig t) := by
  induction h generalizing before with
  | control => exact ⟨_, block_of_signal before (stmt_result_of_ok rfl)⟩
  | @choice n test body alternate ss scope st v hv h ih =>
    obtain ⟨t, ht⟩ := ih ""
    have hstmt : (stmtInner host (Evaluator.within host n) (.choice test body alternate)
        scope).result st = .ok (.signal sig t) := by
      rw [stmtInner, result_bind_ok hv]
      exact ht
    exact ⟨_, block_of_signal before (stmt_result_of_ok hstmt)⟩
  | @noItems n target iterable body default ss scope st b hitems h ih =>
    obtain ⟨t, ht⟩ := ih ""
    have hinner : (innerScope scope).result st = .ok (scope.below st) := rfl
    have hstmt : (stmtInner host (Evaluator.within host n) (.loop target iterable body default)
        scope).result st = .ok (.signal sig t) := by
      rw [stmtInner, loop_eq, result_bind_ok hinner]
      exact (result_bind_ok hitems).trans ht
    exact ⟨_, block_of_signal before (stmt_result_of_ok hstmt)⟩
  | later hs h ih =>
    obtain ⟨t, ht⟩ := ih _
    exact ⟨t, (block_of_text before hs).trans ht⟩

/-- A statement that answers with a signal hands on one of a block in it, or is the signal. -/
theorem signals_of_stmt {s : Stmt} {t : Text}
    (ih : ∀ {ss scope st t}, (block (Evaluator.within host n) scope "" ss).result st =
      .ok (.signal sig t) → Signals host sig n ss scope st)
    (h : (stmtInner host (Evaluator.within host n) s scope).result st = .ok (.signal sig t)) :
    Signals host sig (n + 1) (s :: ss) scope st := by
  unfold stmtInner at h
  cases s with
  | control sig' w =>
    cases h
    exact .control
  | choice test body alternate =>
    obtain ⟨v, hv, h⟩ := result_bind_eq_ok h
    exact .choice hv (ih h)
  | loop target iterable body default =>
    dsimp only at h
    rw [loop_eq] at h
    obtain ⟨inner, hinner, h⟩ := result_bind_eq_ok h
    cases hinner
    obtain ⟨⟨b, items⟩, hitems, h⟩ := result_bind_eq_ok h
    cases items with
    | nil => exact .noItems hitems (ih h)
    | cons v vs => exact (Texts.rounds _ _ _ _ _ _ _ _ _ _ _ h).elim
  | comment w | text w => cases h
  | output e => exact (Texts.bind Texts.output st sig t h).elim
  | assign target e =>
    exact (Texts.bind (fun _ => Texts.bind fun _ => Texts.pure _) st sig t h).elim
  | capture target body =>
    exact (Texts.bind (fun _ => Texts.bind fun _ => Texts.pure _) st sig t h).elim
  | defineMacro name params body =>
    refine (Texts.bind (fun _ => ?_) st sig t h).elim
    exact Texts.bind fun _ => Texts.bind fun _ => Texts.pure _
  | callBlock callee as params body => exact (Texts.bind Texts.output st sig t h).elim
  | filterBlock f body => exact (Texts.bind (fun _ => Texts.bind Texts.output) st sig t h).elim

theorem signals_of_block {t : Text} (before : Text)
    (h : (block (Evaluator.within host n) scope before ss).result st = .ok (.signal sig t)) :
    Signals host sig n ss scope st := by
  induction n generalizing ss scope st t before with
  | zero =>
    cases ss with
    | nil => cases h
    | cons s ss => cases h
  | succ n ihn =>
    induction ss generalizing st t before with
    | nil => cases h
    | cons s ss ihs =>
      unfold block at h
      obtain ⟨flow, hflow, h⟩ := result_bind_eq_ok h
      cases flow with
      | text t' => exact .later hflow (ihs _ h)
      | signal sig' t' =>
        cases h
        refine signals_of_stmt (t := t') (fun h => ihn _ h) ?_
        rw [stmt_result] at hflow
        revert hflow
        cases (stmtInner host (Evaluator.within host n) s scope).result st with
        | ok flow => exact id
        | error f =>
          intro h
          cases h

/-- Statements answer with a signal if and only if their run comes to one that none of their loops
takes. -/
theorem block_signal_iff (before : Text) :
    (∃ t, (block (Evaluator.within host n) scope before ss).result st = .ok (.signal sig t)) ↔
      Signals host sig n ss scope st :=
  ⟨fun ⟨_, h⟩ => signals_of_block before h, fun h => block_of_signals h before⟩

end Eval

namespace Signals
variable {body : List Stmt}

/-- A signal that a run comes to is not enclosed. -/
theorem not_enclosed (h : Signals host sig n body scope st) : ¬ Stmt.allEnclosed false body := by
  induction h with
  | control => simp [Stmt.allEnclosed, Stmt.enclosed]
  | choice hv h ih =>
    intro henclosed
    simp only [Stmt.allEnclosed, Stmt.enclosed, Bool.and_eq_true] at henclosed
    split at ih
    · exact ih henclosed.1.1
    · exact ih henclosed.1.2
  | noItems hitems h ih =>
    intro henclosed
    simp only [Stmt.allEnclosed, Stmt.enclosed, Bool.and_eq_true] at henclosed
    exact ih henclosed.1.2
  | later hs h ih =>
    intro henclosed
    simp only [Stmt.allEnclosed, Bool.and_eq_true] at henclosed
    exact ih henclosed.2

/-- A body that a signal reaches the end of fails. -/
theorem closedBlock (h : Signals host sig n body scope st) :
    (Eval.closedBlock (Evaluator.within host n) scope body).result st =
      .error (.error (.signalOutsideLoop sig) none) := by
  obtain ⟨t, ht⟩ := Eval.block_of_signals h ""
  unfold Eval.closedBlock
  rw [Eval.result_bind_ok ht]
  rfl

theorem capture (h : Signals host sig n body scope st) (target : Expr) :
    ((Evaluator.within host (n + 1)).stmt (.capture target body) scope).result st =
      .error (.error (.signalOutsideLoop sig) (Stmt.capture target body).pos?) := by
  refine Eval.stmt_result_of_error ?_
  rw [Eval.stmtInner, Eval.result_bind, h.closedBlock]

theorem filterBlock (h : Signals host sig n body scope st) (f : Expr) :
    ((Evaluator.within host (n + 1)).stmt (.filterBlock f body) scope).result st =
      .error (.error (.signalOutsideLoop sig) (Stmt.filterBlock f body).pos?) := by
  refine Eval.stmt_result_of_error ?_
  rw [Eval.stmtInner, Eval.result_bind, h.closedBlock]

theorem callMacro {name : String} {params : List Param} {a : Args} {inner : Scope}
    (hentry : (Eval.macroEntry (Evaluator.within host n) name params a scope).result st = .ok inner)
    (h : Signals host sig n body inner
      ((Eval.macroEntry (Evaluator.within host n) name params a scope).after st)) :
    (Eval.callMacro (Evaluator.within host n) name params body a scope).result st =
      .error (.error (.signalOutsideLoop sig) none) := by
  rw [Eval.callMacro_eq, Eval.result_bind_ok hentry, Eval.result_bind, h.closedBlock]

theorem callCaller {params : List String} {a : Args} {inner : Scope}
    (hentry : (Eval.callerEntry params a scope).result st = .ok inner)
    (h : Signals host sig n body inner ((Eval.callerEntry params a scope).after st)) :
    (Eval.callCaller (Evaluator.within host n) params body scope a).result st =
      .error (.error (.signalOutsideLoop sig) none) := by
  rw [Eval.callCaller_eq, Eval.result_bind_ok hentry, Eval.result_bind, h.closedBlock]

end Signals
end ChatTemplate
