import ChatTemplate.Proofs.Eval.Assignments
import ChatTemplate.Template

/-!
# Which frames an evaluation changes

`Store.KeepsFrames own st st'`: the frames of `st` are still there in `st'`, and those outside `own`
are as they were. Names are bound in the innermost frame of a scope only, and loops, macros and call
blocks open a scope with a new frame, so a statement changes the frame of its own scope at most and
an expression changes none (`Evaluator.within_isolates`).
-/

namespace ChatTemplate
variable {α : Type} {own : FrameRef → Prop}

/-- No frame is lost, and the frames outside `own` stay as they are. -/
structure Store.KeepsFrames (own : FrameRef → Prop) (st st' : Store) : Prop where
  size_le : st.frames.size ≤ st'.frames.size
  frames : ∀ r, r < st.frames.size → ¬ own r → st'.frames[r]? = st.frames[r]?

namespace Store.KeepsFrames
variable {st st' st'' : Store}

theorem refl (st : Store) : st.KeepsFrames own st := ⟨Nat.le_refl _, fun _ _ _ => rfl⟩

theorem trans (h : st.KeepsFrames own st') (h' : st'.KeepsFrames own st'') :
    st.KeepsFrames own st'' where
  size_le := Nat.le_trans h.size_le h'.size_le
  frames r hr hown :=
    (h'.frames r (Nat.lt_of_lt_of_le hr h.size_le) hown).trans (h.frames r hr hown)

instance : IsPreorder Store (Store.KeepsFrames own) where
  refl := refl
  trans _ _ _ := trans

theorem of_frames_eq (h : st'.frames = st.frames) : st.KeepsFrames own st' :=
  ⟨Nat.le_of_eq (by rw [h]), fun _ _ _ => by rw [h]⟩

theorem bind (st : Store) {r : FrameRef} (name : String) (v : Value) (hr : own r) :
    st.KeepsFrames own (st.bind r name v) where
  size_le := by simp [Store.bind]
  frames r' _ hown := by
    have hne : r ≠ r' := fun h => hown (h ▸ hr)
    simp [Store.bind, Array.getElem?_modify, hne]

theorem pushFrame (st : Store) (vars : Slots String Value) :
    st.KeepsFrames own (st.pushFrame vars) where
  size_le := by simp [Store.pushFrame]
  frames r hr _ := by simp [Store.pushFrame, Array.getElem?_push, Nat.ne_of_lt hr]

end Store.KeepsFrames

namespace Eval

/-- The evaluation changes the frames in `own` and new ones at most. -/
abbrev Isolated (own : FrameRef → Prop) (m : Eval α) : Prop := m.Respects (Store.KeepsFrames own)

namespace Isolated

theorem of_adds {m : Eval α} (h : Adds m) : Isolated own m :=
  h.mono fun _ _ hst => .of_frames_eq hst.frames

theorem bindName {s : Scope} (name : String) (v : Value) (h : own s.inner) :
    Isolated own (Eval.bind s name v) :=
  fun st => .bind st name v h

/-- What runs in a new scope may also change the frame of that scope. -/
theorem innerScope_bind {s : Scope} {f : Scope → Eval α}
    (hf : ∀ inner own', own' inner.inner → (∀ r, own r → own' r) → Isolated own' (f inner)) :
    Isolated own (Eval.innerScope s >>= f) := by
  intro st
  rw [after_bind_ok (m := Eval.innerScope s) rfl]
  let inner : Scope := ⟨st.frames.size, s.chain⟩
  have hpush : st.KeepsFrames own (st.pushFrame []) := .pushFrame st []
  have hrun := hf inner (fun r => own r ∨ r = st.frames.size) (.inr rfl) (fun _ => .inl)
    (st.pushFrame [])
  refine ⟨Nat.le_trans hpush.size_le hrun.size_le, fun r hr hown => ?_⟩
  rw [← hpush.frames r hr hown]
  refine hrun.frames r (Nat.lt_of_lt_of_le hr hpush.size_le) fun h => ?_
  exact h.elim hown (Nat.ne_of_lt hr)

end Isolated
end Eval

/-- Expressions change no frame, statements that of their scope at most. -/
structure Evaluator.Isolates (ev : Evaluator) : Prop where
  expr : ∀ own e s, Eval.Isolated own (ev.expr e s)
  stmt : ∀ own x s, own s.inner → Eval.Isolated own (ev.stmt x s)

namespace Eval.Isolated
variable {ev : Evaluator} {host : Host}

/-- Which frames may change is all that matters of the store; where a scope is opened there is one
more. -/
def logic (host : Host) : StoreLogic host Unit where
  World := FrameRef → Prop
  Later own own' := ∀ r, own r → own' r
  Holds own m := Isolated own (m ())
  Place := Scope
  scopeOf scope _ := scope
  Sees _ _ := True
  Finds _ _ := True
  Owns own scope := own scope.inner
  Knows _ := True
  sees _ := trivial
  finds _ := trivial
  later _ := id
  pure := .pure
  throw _ := .throw _
  hostFails _ _ := .throw _
  bind := .bind
  datum := .datum
  equal := .equal
  holds? _ _ := .finite _
  truthy := .truthy
  slotsOf := .slotsOf
  lookup _ _ := .bind .get fun _ => .pure _
  newObject slots := of_adds (.newObject slots)
  stringMethod _ _ := of_adds (.newFunction _)
  objectMethod _ _ := of_adds (.newFunction _)
  hostFunction _ := of_adds (.newFunction _)
  innerScope _ hf := innerScope_bind fun inner own' howns hlater => hf own' inner hlater howns
  bindName name v howns := bindName name v howns
  findTest name := fun _ hf => .bind (of_adds (.findTest _ name)) fun found => hf found trivial
  hostTest name key v args _ := of_adds (.hostTest host name key v args)

variable (hev : ev.Isolates)
include hev

theorem covers (host : Host) : (logic host).Covers fun _ => ev :=
  fun own e scope _ => hev.expr own e scope

theorem coversStmts (host : Host) : (logic host).CoversStmts fun _ => ev :=
  fun own s scope h => hev.stmt own s scope h

theorem block (host : Host) (body : List Stmt) (own : FrameRef → Prop) (inner : Scope)
    (h : (logic host).Owns own inner) :
    (logic host).Holds own fun _ => Eval.block ev inner "" body :=
  Logic.Holds.block (coversStmts hev host) h "" body

theorem closedBlock {scope : Scope} (body : List Stmt) (h : own scope.inner) :
    Isolated own (Eval.closedBlock ev scope body) :=
  Logic.Holds.closedBlock (block hev Host.none body own scope h)

theorem callFunction (host : Host) (f : Function) (a : Args) (scope : Scope) :
    (logic host).Holds own fun _ => Eval.callFunction ev host f a scope :=
  have hscope : (logic host).Sees own scope := trivial
  Logic.Holds.callFunction (covers hev host) (coversStmts hev host)
    (fun _ _ home _ => ⟨home, trivial, fun _ => rfl⟩) a hscope

theorem callValue (host : Host) (v : Value) (a : Args) (scope : Scope) :
    Isolated own (Eval.callValue ev host v a scope) := by
  unfold Eval.callValue
  cases v with
  | function r => exact .bind .get fun st => callFunction hev host (st.function r) a scope
  | _ => exact .fail _

theorem coversCalls (host : Host) : (logic host).CoversCalls fun _ => ev :=
  fun _ v a scope _ => callValue hev host v a scope

theorem loop (scope : Scope) (target : Target) (iterable : Expr) (body default : List Stmt) :
    Isolated own (Eval.loop ev scope target iterable body default) :=
  have hscope : (logic Host.none).Sees own scope := trivial
  have hrun : (logic Host.none).Holds own fun _ =>
      Eval.loop ev scope target iterable body default :=
    Logic.Holds.loop (covers hev Host.none) target iterable (block hev Host.none body)
      (block hev Host.none default) hscope
  hrun

theorem callBlock (host : Host) (scope : Scope) (callee : Word) (as params : List Arg)
    (body : List Stmt) : Isolated own (Eval.callBlock host ev scope callee as params body) :=
  have hscope : (logic host).Admits own scope := ⟨trivial, trivial⟩
  have hrun : (logic host).Holds own fun _ =>
      Eval.callBlock host ev scope callee as params body :=
    Logic.Holds.callBlock (covers hev host) (coversCalls hev host) hscope callee as params
      fun _ _ _ => of_adds (.newFunction _)
  hrun

theorem expr (host : Host) (e : Expr) (scope : Scope) :
    Isolated own (Eval.expr host ev e scope) := by
  have hscope : (logic host).Admits own scope := ⟨trivial, trivial⟩
  exact .rethrow _ (Logic.Holds.exprInner (covers hev host) hscope (coversCalls hev host) e)

theorem stmt (host : Host) (s : Stmt) {scope : Scope} (h : own scope.inner) :
    Isolated own (Eval.stmt host ev s scope) := by
  have hscope : (logic host).Owns own scope := h
  have hrun : (logic host).Holds own fun _ => Eval.stmtWith performed host ev s scope :=
    Logic.Holds.stmtWith (covers hev host) (coversCalls hev host) (coversStmts hev host)
      (fun _ _ => .of_frames_eq rfl) (fun _ _ _ => of_adds (.newFunction _))
      (fun _ _ _ _ _ => of_adds (.newFunction _)) hscope s
  rw [stmtWith_performed] at hrun
  exact .rethrow _ hrun

omit hev in
theorem output (v : Value) : Isolated own (Eval.output v) :=
  have hrun : (logic Host.none).Holds own fun _ => Eval.output v := .output v
  hrun

end Eval.Isolated

theorem Evaluator.within_isolates (host : Host) (depth : Nat) : (within host depth).Isolates := by
  induction depth with
  | zero => exact ⟨fun _ _ _ => .throw _, fun _ _ _ _ => .throw _⟩
  | succ n ih => exact ⟨fun _ e s => .expr ih host e s, fun _ x _ h => .stmt ih host x h⟩

open Eval in
/-- Scope isolation. Whatever the store, and whether the evaluation answers or fails: a statement or
a program changes no frame that was there before but the innermost one of its scope. An expression, a
loop, a call block and the call of any value (a macro or the body of a call block among them) do not
change that one either. -/
theorem evaluation_isolates_scopes (host : Host) (depth : Nat) (scope : Scope) (st : Store) :
    (∀ s, st.KeepsFrames (· = scope.inner)
      (((Evaluator.within host depth).stmt s scope).after st)) ∧
    (∀ p : Program, st.KeepsFrames (· = scope.inner) ((p.run host depth scope).after st)) ∧
    (∀ e, st.KeepsFrames (fun _ => False)
      (((Evaluator.within host depth).expr e scope).after st)) ∧
    (∀ target iterable body default, st.KeepsFrames (fun _ => False)
      (((Evaluator.within host depth).stmt (.loop target iterable body default) scope).after st)) ∧
    (∀ callee as params body, st.KeepsFrames (fun _ => False)
      (((Evaluator.within host depth).stmt (.callBlock callee as params body) scope).after st)) ∧
    (∀ v a, st.KeepsFrames (fun _ => False)
      ((Eval.callValue (Evaluator.within host depth) host v a scope).after st)) := by
  have hev := Evaluator.within_isolates host depth
  have hstmt (s) : Isolated (fun r => r = scope.inner) ((Evaluator.within host depth).stmt s scope) :=
    hev.stmt _ s scope rfl
  have hrun (p : Program) : Isolated (fun r => r = scope.inner) (p.run host depth scope) :=
    Isolated.closedBlock hev p rfl
  refine ⟨fun s => hstmt s st, fun p => hrun p st, fun e => hev.expr _ e scope st,
    fun target iterable body default => ?_, fun callee as params body => ?_,
    fun v a => Isolated.callValue hev host v a scope st⟩
  · cases depth with
    | zero => exact .refl st
    | succ n =>
      have hev := Evaluator.within_isolates host n
      exact Respects.rethrow _ (Isolated.loop hev scope target iterable body default) st
  · cases depth with
    | zero => exact .refl st
    | succ n =>
      have hev := Evaluator.within_isolates host n
      refine Respects.rethrow _ ?_ st
      exact .bind (Isolated.callBlock hev host scope callee as _ body) fun v => Isolated.output v

end ChatTemplate
