import ChatTemplate.Proofs.Eval.Assignments
import ChatTemplate.Proofs.Eval.Primitives
import Mathlib.Data.List.Basic
import Mathlib.Data.List.Induction
import Mathlib.Data.Nat.Pairing

/-!
# The nodes that a failure passes

An expression or a statement that fails does something with the failure and passes it on: it gives
it its place (`Fault.locate`). `Evaluator.marking mark` evaluates likewise, but here each node does
with a failure what `mark` says. Nothing that an evaluation does depends on it, so that a failure
passes the same nodes whatever `mark` is: those that are under evaluation when it is raised, from
the innermost on (`Evaluator.marking_traced`). They are its backtrace. Marks tell any two of them
apart (`Fault.passing_inj`), and the place that is left in the end is that of the first node that
has one (`Fault.passing_locate`), unless the host has raised the error with a place of its own.
-/

namespace ChatTemplate

/-- A node that can be under evaluation. -/
inductive Site
  | expr (e : Expr)
  | stmt (s : Stmt)

/-- The place of the first word of the node, if it has one. -/
def Site.pos? : Site → Option Pos
  | .expr e => e.pos?
  | .stmt s => s.pos?

/-- What a node does with a failure of its evaluation. -/
abbrev Mark := Site → Fault → Fault

/-- The nodes give a failure their places. -/
def Mark.locate : Mark := fun x => Fault.locate x.pos?

/-- The nodes change the place of an error, and nothing else. -/
def Mark.ofPos (g : Site → Option Pos → Option Pos) : Mark
  | x, .error cause pos => .error cause (g x pos)
  | _, f => f

/-- Evaluates what nests at most `n` deep, where each node does with a failure what `mark` says. -/
def Evaluator.marking (mark : Mark) (host : Host) : Nat → Evaluator
  | 0 => ⟨fun _ _ => throw .endless, fun _ _ => throw .endless⟩
  | n + 1 =>
    ⟨fun e scope => tryCatch (Eval.exprInner host (marking mark host n) e scope) fun f =>
        throw (mark (.expr e) f),
      fun s scope => tryCatch (Eval.stmtInner host (marking mark host n) s scope) fun f =>
        throw (mark (.stmt s) f)⟩

namespace Fault
variable {trace trace' : List Site}

/-- What a failure has become behind the nodes that it passes. -/
def passing (mark : Mark) (trace : List Site) (f : Fault) : Fault :=
  trace.foldl (fun f x => mark x f) f

theorem passing_ofPos (g : Site → Option Pos → Option Pos) (cause : Cause) (pos : Option Pos)
    (trace : List Site) : (error cause pos).passing (.ofPos g) trace =
      .error cause (trace.foldl (fun p x => g x p) pos) := by
  induction trace generalizing pos with
  | nil => rfl
  | cons x trace ih => exact ih (g x pos)

/-- A number for each place, and for none. -/
def placeCode : Option Pos → Nat
  | none => 0
  | some p => Nat.pair p.line p.column + 1

theorem placeCode_inj {p q : Option Pos} (h : placeCode p = placeCode q) : p = q := by
  cases p with
  | none =>
    cases q with
    | none => rfl
    | some q => cases h
  | some p =>
    cases q with
    | none => cases h
    | some q =>
      obtain ⟨hline, hcolumn⟩ := Nat.pair_eq_pair.mp (Nat.succ.inj h)
      cases p
      cases q
      exact congrArg some (congr (congrArg Pos.mk hline) hcolumn)

/-- A place in which a node writes down its own number and the place that was there before. -/
def signed (index : Site → Nat) (p : Option Pos) (x : Site) : Option Pos :=
  some ⟨index x, placeCode p⟩

theorem foldl_signed_concat (index : Site → Nat) (own : Option Pos) (trace : List Site) (x : Site) :
    (trace ++ [x]).foldl (signed index) own =
      some ⟨index x, placeCode (trace.foldl (signed index) own)⟩ :=
  List.foldl_append

/-- Node by node from the last on, each has left its number; that none has is seen by the place that
was there at first, which has no such number. -/
theorem foldl_signed_inj {index : Site → Nat} {own : Option Pos}
    (hown : ∀ x p, own = some p → index x ≠ p.line)
    (hindex : ∀ x ∈ trace, ∀ y ∈ trace', index x = index y → x = y)
    (h : trace.foldl (signed index) own = trace'.foldl (signed index) own) : trace = trace' := by
  induction trace using List.reverseRecOn generalizing trace' with
  | nil =>
    rcases trace'.eq_nil_or_concat with rfl | ⟨ys, y, rfl⟩
    · rfl
    · rw [List.concat_eq_append, foldl_signed_concat] at h
      exact absurd rfl (hown y _ h)
  | append_singleton xs x ih =>
    rcases trace'.eq_nil_or_concat with rfl | ⟨ys, y, rfl⟩
    · rw [foldl_signed_concat] at h
      exact absurd rfl (hown x _ h.symm)
    · rw [List.concat_eq_append] at hindex h ⊢
      rw [foldl_signed_concat, foldl_signed_concat] at h
      obtain ⟨hxy, hrest⟩ := Pos.mk.inj (Option.some.inj h)
      have hlast : x = y := hindex x (by simp) y (by simp) hxy
      have hinit : xs = ys := by
        refine ih (fun x' hx y' hy => ?_) (placeCode_inj hrest)
        exact hindex x' (List.mem_append_left _ hx) y' (List.mem_append_left _ hy)
      rw [hlast, hinit]

open Classical in
/-- A failure that becomes the same whatever the nodes do passes the same nodes. -/
theorem passing_inj {cause : Cause} {own : Option Pos}
    (h : ∀ mark, (error cause own).passing mark trace = (error cause own).passing mark trace') :
    trace = trace' := by
  let index (x : Site) : Nat := (trace ++ trace').idxOf x + (own.elim 0 Pos.line + 1)
  have hsigned := h (.ofPos fun x p => signed index p x)
  rw [passing_ofPos, passing_ofPos, Fault.error.injEq] at hsigned
  refine foldl_signed_inj (fun x p hp => ?_) (fun x hx y _ hxy => ?_) hsigned.2
  · simp only [index, hp, Option.elim_some]
    omega
  · exact (List.idxOf_inj (List.mem_append_left _ hx)).mp (Nat.add_right_cancel hxy)

/-- What a failure is where it is raised: it has no place yet, unless it is the host's. -/
def Fresh (host : Host) (f : Fault) : Prop := f.Raw ∨ host.Raises f

end Fault

variable {α β : Type} {host : Host}

namespace Eval

/-- Whatever the nodes do with failures, the evaluation does the same to the store, and answers the
same or fails alike: with a failure that has no place yet, unless it is the host's, and passes the same
nodes. -/
def Traced (host : Host) (m : Mark → Eval α) : Prop :=
  ∀ st, (∃ a st', ∀ mark, (m mark).result st = .ok a ∧ (m mark).after st = st') ∨
    ∃ (f : Fault) (trace : List Site) (st' : Store), f.Fresh host ∧ ∀ mark,
      (m mark).result st = .error (f.passing mark trace) ∧ (m mark).after st = st'

/-- Stores as they like, and failures as they are raised. -/
def freshContract (host : Host) : Contract where
  store _ := True
  fault := Fault.Fresh host

theorem host_allowed_fresh : host.Allowed (Fault.Fresh host) where
  badCall := .inl (Fault.raw_escape _)
  fails _ hf := .inr hf

theorem freshContract_lenient : (freshContract host).Lenient host where
  toClosed := .of_forall fun _ => trivial
  distinct _ _ _ := trivial
  pushObject _ _ _ _ := trivial
  pushMethod _ _ _ _ := trivial
  ordinary cause _ := .inl (Fault.raw_error cause)
  known why _ := .inl (Fault.raw_escape why)
  endless := .inl Fault.raw_endless
  tests := .inl host_allowed_fresh

namespace Traced

/-- What evaluates no node of its own. -/
theorem const {m : Eval α} (h : Meets (freshContract host) m) : Traced host fun _ => m := by
  intro st
  obtain ⟨-, hresult⟩ := h st trivial
  cases hm : m.result st with
  | ok a => exact .inl ⟨a, m.after st, fun mark => ⟨hm, rfl⟩⟩
  | error f =>
    rw [hm] at hresult
    exact .inr ⟨f, [], m.after st, hresult, fun mark => ⟨hm, rfl⟩⟩

theorem pure (a : α) : Traced host fun _ => (Pure.pure a : Eval α) :=
  const (.pure trivial)

theorem bind {m : Mark → Eval α} {f : Mark → α → Eval β} (hm : Traced host m)
    (hf : ∀ a, Traced host fun mark => f mark a) : Traced host fun mark => m mark >>= f mark := by
  intro st
  rcases hm st with ⟨a, st', hok⟩ | ⟨e, trace, st', hfresh, herror⟩
  · have hstep (mark) : (m mark >>= f mark).result st = (f mark a).result st' ∧
        (m mark >>= f mark).after st = (f mark a).after st' := by
      obtain ⟨hresult, hafter⟩ := hok mark
      rw [result_bind_ok hresult, after_bind_ok hresult, hafter]
      exact ⟨rfl, rfl⟩
    rcases hf a st' with ⟨b, st'', hok'⟩ | ⟨e, trace, st'', hfresh, herror⟩
    · exact .inl ⟨b, st'', fun mark =>
        ⟨(hstep mark).1.trans (hok' mark).1, (hstep mark).2.trans (hok' mark).2⟩⟩
    · exact .inr ⟨e, trace, st'', hfresh, fun mark =>
        ⟨(hstep mark).1.trans (herror mark).1, (hstep mark).2.trans (herror mark).2⟩⟩
  · refine .inr ⟨e, trace, st', hfresh, fun mark => ?_⟩
    obtain ⟨hresult, hafter⟩ := herror mark
    rw [result_bind, after_bind, hresult]
    exact ⟨rfl, hafter⟩

theorem newFunction (f : Function) : Traced host fun _ => Eval.newFunction f :=
  const (.modifyGet fun _ _ => ⟨trivial, trivial⟩)

/-- Single steps evaluate no node, and their failures have no place. -/
def logic (host : Host) : StoreLogic host Mark where
  World := Unit
  Later _ _ := True
  Holds _ := Eval.Traced host
  Place := Scope
  scopeOf scope _ := scope
  Sees _ _ := True
  Finds _ _ := True
  Owns _ _ := True
  Knows _ := True
  sees := id
  finds := id
  later _ := id
  pure := pure
  throw hf := const (.throw (.inl hf))
  hostFails _ hf := const (.throw (.inr hf))
  bind := bind
  datum v := const (freshContract_lenient.datum v)
  equal v w := const (freshContract_lenient.equal v w)
  holds? _ _ := const (freshContract_lenient.finite _)
  truthy v := const (.truthy v)
  slotsOf r := const (freshContract_lenient.slotsOf r).meets
  lookup _ _ := const (Returns.get.bind fun _ _ => .pure trivial)
  newObject _ := const (freshContract_lenient.newObject trivial)
  stringMethod _ _ := newFunction _
  objectMethod _ _ := newFunction _
  hostFunction _ := newFunction _
  innerScope _ h :=
    bind (const (.modifyGet fun _ _ => ⟨trivial, trivial⟩)) fun inner => h () inner trivial trivial
  bindName _ _ _ := const (.modify fun _ _ => trivial)
  findTest name := fun _ h =>
    bind (const (freshContract_lenient.findTest _ name).meets) fun found => h found trivial
  hostTest _ _ v args _ := const (freshContract_lenient.runTest v args (.inl host_allowed_fresh))

end Traced
end Eval

/-- Evaluators that differ in what nodes do with failures, and in nothing else. -/
structure Evaluator.Traced (host : Host) (ev : Mark → Evaluator) : Prop where
  expr : ∀ e scope, Eval.Traced host fun mark => (ev mark).expr e scope
  stmt : ∀ s scope, Eval.Traced host fun mark => (ev mark).stmt s scope

namespace Eval.Traced
variable {ev : Mark → Evaluator} (hev : Evaluator.Traced host ev)
include hev

theorem covers : (logic host).Covers ev := fun _ e scope _ => hev.expr e scope

theorem coversStmts : (logic host).CoversStmts ev :=
  fun _ s scope _ => hev.stmt s scope

theorem coversCalls : (logic host).CoversCalls ev := by
  intro _ v a scope hscope
  unfold Eval.callValue
  cases v with
  | function r =>
    have hget : Traced host fun _ => (MonadState.get : Eval Store) := const Returns.get
    refine hget.bind fun st => ?_
    exact Logic.Holds.callFunction (covers hev) (coversStmts hev)
      (fun _ _ home _ => ⟨home, trivial, fun _ => rfl⟩) a hscope
  | _ => exact Logic.Holds.fail _

theorem exprInner (e : Expr) (scope : Scope) :
    Traced host fun mark => Eval.exprInner host (ev mark) e scope := by
  have hscope : (logic host).Admits () scope := ⟨trivial, trivial⟩
  exact Logic.Holds.exprInner (covers hev) hscope (coversCalls hev) e

theorem stmtInner (s : Stmt) (scope : Scope) :
    Traced host fun mark => Eval.stmtInner host (ev mark) s scope := by
  have hscope : (logic host).Owns () scope := trivial
  have hput (a : Assignment) : (logic host).Holds () fun _ => performed a :=
    const (.modify fun _ _ => trivial)
  have hrun : Traced host fun mark => stmtWith performed host (ev mark) s scope :=
    Logic.Holds.stmtWith (covers hev) (coversCalls hev) (coversStmts hev) hput
      (fun _ _ _ => newFunction _) (fun _ names body home _ => newFunction (.caller names body home))
      hscope s
  simp only [stmtWith_performed] at hrun
  exact hrun

end Eval.Traced

end ChatTemplate
