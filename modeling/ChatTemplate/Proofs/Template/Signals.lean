import ChatTemplate.Proofs.Eval.Signals
import ChatTemplate.Proofs.Template.Reachable

/-!
# Loop signals stay in the bodies that they stand in

`loop_signals_sound`: a template whose signals are enclosed never fails for one outside a loop, if
the same is true of the macros and call blocks that its variables bring along, and the host raises no
such error itself; and a signal that is not enclosed, once run, makes the body that it stands in fail.
So no signal acts on a loop around the call of a macro or around a call block. Without the condition on
what the variables bring along this is false (`enclosed_call_signals`).
-/

namespace ChatTemplate
open Variables

/-- Where the variables reach functions of enclosed signals only, and the host raises no errors that
are reported as those of signals, rendering a template of enclosed signals does not fail with what is
reported so. An expression that stands as a statement leaves no signal, and other
statements leave one if and only if they run to one that none of their loops takes; such a signal is
not enclosed, and the body that it leaves fails, be it a program, what an assignment captures, what
a filter block filters, or the body of a macro or a call block that is entered. -/
theorem loop_signals_sound (host : Host) (depth : Nat) (sig : LoopSignal) :
    (∀ (P : Part) (st : Store) (t : Template) (vars keywords : Variables),
      P.Closed st → (∀ n, n ∈ P.names) → host.Blind (P.diagonal st).toPairing →
      host.FailsWith Fault.KeepsSignals → (∀ r ∈ P.functions, (st.function r).enclosed) →
      (∀ e ∈ vars.merge keywords, P.HoldsHost e.2) → Stmt.allEnclosed false t.program →
      ∀ cause pos, (t.render host depth vars keywords).result st = .error (.error cause pos) →
        cause.reportsSignal sig = false) ∧
    (∀ e scope st t, ((Evaluator.within host depth).stmt (.output e) scope).result st ≠
      .ok (.signal sig t)) ∧
    (∀ ss scope st before,
      (∃ t, (Eval.block (Evaluator.within host depth) scope before ss).result st =
        .ok (.signal sig t)) ↔ Signals host sig depth ss scope st) ∧
    (∀ body scope st, Signals host sig depth body scope st →
      ¬ Stmt.allEnclosed false body ∧
      (Program.run host depth body scope).result st =
        .error (.error (.signalOutsideLoop sig) none) ∧
      (∀ target, ((Evaluator.within host (depth + 1)).stmt (.capture target body) scope).result st =
        .error (.error (.signalOutsideLoop sig) (Stmt.capture target body).pos?)) ∧
      ∀ f, ((Evaluator.within host (depth + 1)).stmt (.filterBlock f body) scope).result st =
        .error (.error (.signalOutsideLoop sig) (Stmt.filterBlock f body).pos?)) ∧
    (∀ name params body a scope st inner,
      (Eval.macroEntry (Evaluator.within host depth) name params a scope).result st = .ok inner →
      Signals host sig depth body inner
        ((Eval.macroEntry (Evaluator.within host depth) name params a scope).after st) →
      (Eval.callMacro (Evaluator.within host depth) name params body a scope).result st =
        .error (.error (.signalOutsideLoop sig) none)) ∧
    (∀ params body scope a st inner,
      (Eval.callerEntry params a scope).result st = .ok inner →
      Signals host sig depth body inner ((Eval.callerEntry params a scope).after st) →
      (Eval.callCaller (Evaluator.within host depth) params body scope a).result st =
        .error (.error (.signalOutsideLoop sig) none)) := by
  refine ⟨?render, ?output, fun ss scope st before => Eval.block_signal_iff before, ?bodies,
    fun name params body a scope st inner hentry h => h.callMacro hentry,
    fun params body scope a st inner hentry h => h.callCaller hentry⟩
  case render =>
    intro P st t vars keywords hP hnames hhost hkeeps henclosed hvars ht cause pos hfail
    have hstray : cause.reportsStray = false :=
      Template.render_tame Fault.keepsSignals_permits ⟨Fault.avoids_escape _, hkeeps⟩ hP
        hnames hhost (fun r hr => Function.tame_of_enclosed hkeeps (henclosed r hr)) depth
        (Stmt.allTame_of_enclosed ht) hvars hfail cause pos rfl
    exact Cause.reportsSignal_of_not_reportsStray hstray sig
  case output =>
    intro e scope st t h
    have hblock : (Eval.block (Evaluator.within host depth) scope "" [.output e]).result st =
        .ok (.signal sig ("" ++ t)) := Eval.block_of_signal "" h
    cases depth with
    | zero => cases h
    | succ n => cases (Eval.block_signal_iff "").mp ⟨_, hblock⟩ with
      | later hs _ => rw [h] at hs; cases hs
  case bodies =>
    exact fun body scope st h => ⟨h.not_enclosed, h.closedBlock, h.capture, h.filterBlock⟩

/-! ### Macros that come with the variables -/

/-- The store after a program that defines a macro `m` of the given body. -/
def storeOfMacro (body : List Stmt) : Store :=
  (do
    let scope ← Eval.rootScope
    Program.run Host.none 5 [.defineMacro ⟨"m", ⟨1, 10⟩⟩ [] body] scope : Eval Text).after
      Store.initial

/-- The body `{% break %}`. -/
def breakBody : List Stmt := [.control .break ⟨"break", ⟨1, 19⟩⟩]

/-- The body `{% for i in [1] %}{% break %}{% endfor %}`. -/
def loopBody : List Stmt :=
  [.loop (.name ⟨"i", ⟨1, 23⟩⟩) (.array [.int ⟨"1", ⟨1, 29⟩⟩])
    [.control .break ⟨"break", ⟨1, 37⟩⟩] []]

/-- The macro `m`, which is the first function after the global ones. -/
def macroOnly : Variables := [("m", .value (.function 3))]

/-- A template without any signal fails for one, as its variable is a macro that gives it. -/
theorem enclosed_call_signals :
    Template.compile ⟨true, true⟩ "\x7b\x7b m() \x7d\x7d" = .ok Template.macroCall ∧
      Stmt.allEnclosed false Template.macroCall.program = true ∧
      (Template.macroCall.render Host.none 5 macroOnly []).result (storeOfMacro breakBody) =
        .error (.error (.signalOutsideLoop .break) (some ⟨1, 4⟩)) :=
  ⟨Template.compile_macroCall, rfl, by rfl⟩

theorem Host.none_blind (p : Pairing) : Host.none.Blind p := fun _ _ _ _ _ _ _ => .error _

/-- The macro and the global functions. -/
def macroFunctions : Part := ⟨∅, {0, 1, 2, 3}, ∅, Set.univ⟩

theorem macroFunctions_closed : macroFunctions.Closed (storeOfMacro loopBody) where
  objects_lt _ hr := hr.elim
  functions_lt r hr := by
    have hsize : (storeOfMacro loopBody).functions.size = 4 := by rfl
    rw [hsize]
    rcases hr with rfl | rfl | rfl | rfl <;> decide
  frames_lt _ hr := hr.elim
  globals n v hv := by
    have hmem : (n, v) ∈ Store.globalVars := mem_of_lookup hv
    simp only [Store.globalVars, Store.globals, List.zipIdx, List.map, List.mem_cons,
      List.not_mem_nil, or_false, Prod.mk.injEq] at hmem
    rcases hmem with ⟨-, rfl⟩ | ⟨-, rfl⟩ | ⟨-, rfl⟩
    all_goals exact .function ⟨rfl, by simp [macroFunctions]⟩
  slots _ hr := hr.elim
  bodies r hr := by
    rcases hr with rfl | rfl | rfl | rfl
    · exact .range
    · exact .raiseException
    · exact .newNamespace
    · exact .defined "m" [] loopBody fun _ _ => trivial
  vars _ hr := hr.elim

/-- A macro that leaves a loop of its own is no danger; a program that is but a signal fails. -/
theorem enclosed_macro_keeps_signals :
    (∀ cause pos, (Template.macroCall.render Host.none 5 macroOnly []).result
        (storeOfMacro loopBody) = .error (.error cause pos) →
      cause.reportsSignal .break = false) ∧
    (Program.run Host.none 1 breakBody ⟨0, []⟩).result Store.initial =
      .error (.error (.signalOutsideLoop .break) none) := by
  refine ⟨(loop_signals_sound Host.none 5 .break).1 macroFunctions _ _ _ _ macroFunctions_closed
      (fun _ => trivial) (Host.none_blind _) (Host.none_failsWith (Fault.avoids_escape _)) ?enclosed
      ?holds rfl,
    ((loop_signals_sound Host.none 1 .break).2.2.2.1 breakBody _ _ .control).2.1⟩
  case enclosed => rintro r (rfl | rfl | rfl | rfl) <;> rfl
  case holds =>
    intro e he
    obtain rfl := List.mem_singleton.mp he
    exact .value (.function ⟨rfl, by simp [macroFunctions]⟩)

end ChatTemplate
