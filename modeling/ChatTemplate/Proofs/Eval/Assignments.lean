import ChatTemplate.Proofs.Eval.Growth
import ChatTemplate.Proofs.Eval.Walk
import ChatTemplate.Proofs.Store.Basic

/-!
# The assignments of an evaluation

An object changes only where a statement assigns to a member of it. `Evaluator.assigning put` runs a
template likewise, but does with such an assignment what `put` says. Whatever an evaluation does, it
makes certain assignments, one after the other, and between them it only adds to the objects and
functions (`Store.Changes`); and an evaluation that fails at the first assignment of some sort does
the same up to there (`Eval.Stops`). So what becomes of an object is told by the assignments to it
(`Evaluator.assigns`).
-/

namespace ChatTemplate

/-- The assignment of a value to a member of an object. -/
structure Assignment where
  object : ObjectRef
  name : Text
  value : Value

/-- An assignment that is made. -/
structure Assigned extends Assignment where
  before : Store

def Assignment.perform (a : Assignment) (st : Store) : Store := st.putSlot a.object a.name a.value

def Assigned.after (d : Assigned) : Store := d.perform d.before

/-! ### One assignment -/

/-- Exactly one member of one object changes: the others keep their values, all of them their
places, and a new one goes to the end. Whoever looks the member up finds the value. -/
structure Assigned.ChangesOneMember (d : Assigned) : Prop where
  others : ∀ r ≠ d.object, d.after.slots r = d.before.slots r
  names : (d.after.slots d.object).names =
    if d.name ∈ (d.before.slots d.object).names then (d.before.slots d.object).names
    else (d.before.slots d.object).names ++ [d.name]
  value : (d.after.slots d.object).lookup d.name = some d.value
  members : ∀ name ≠ d.name,
    (d.after.slots d.object).lookup name = (d.before.slots d.object).lookup name
  found : (Eval.lookupMember (.object d.object) (.string d.name)).result d.after = .ok d.value

theorem Assigned.changesOneMember {d : Assigned} (hd : d.object < d.before.objects.size) :
    d.ChangesOneMember := by
  have hslots : d.after.slots d.object = (d.before.slots d.object).put d.name d.value :=
    Store.slots_putSlot hd d.name d.value
  have hvalue : (d.after.slots d.object).lookup d.name = some d.value := by
    rw [hslots, Slots.lookup_put_self]
  refine ⟨fun r hr => Store.slots_putSlot_of_ne hr _ _, ?_, hvalue, fun name hname => ?_, ?_⟩
  · rw [hslots, Slots.names_put]
  · rw [hslots, Slots.lookup_put_of_ne _ _ hname]
  · have hget : (Eval.slotsOf d.object).result d.after = .ok (d.after.slots d.object) := rfl
    unfold Eval.lookupMember
    rw [Eval.result_bind_ok hget, hvalue]
    rfl

/-! ### Several assignments -/

/-- The second store comes from the first one by these assignments, and by adding objects and
functions in between. -/
inductive Store.Changes : Store → List Assigned → Store → Prop
  | none {st st' : Store} (h : st.Keeps st') : Changes st [] st'
  | assign {st st' : Store} {d : Assigned} {ds : List Assigned} (h : st.Keeps d.before)
      (rest : Changes d.after ds st') : Changes st (d :: ds) st'

/-- What becomes of an object by the assignments to it. -/
def Slots.assigned (r : ObjectRef) (s : Slots Text Value) (ds : List Assigned) : Slots Text Value :=
  ds.foldl (fun s d => if d.object = r then s.put d.name d.value else s) s

theorem Slots.assigned_of_forall_ne {r : ObjectRef} {ds : List Assigned}
    (h : ∀ d ∈ ds, d.object ≠ r) (s : Slots Text Value) : s.assigned r ds = s := by
  induction ds generalizing s with
  | nil => rfl
  | cons d ds ih =>
    have hne : d.object ≠ r := h d List.mem_cons_self
    rw [assigned, List.foldl_cons, if_neg hne]
    exact ih (fun e he => h e (List.mem_cons_of_mem d he)) s

namespace Store.Changes
variable {st st' st'' : Store} {ds es : List Assigned}

theorem after_keeps (h : st.Keeps st') (h' : Changes st' ds st'') : Changes st ds st'' := by
  cases h' with
  | none h' => exact .none (h.trans h')
  | assign h' rest => exact .assign (h.trans h') rest

theorem trans (h : Changes st ds st') (h' : Changes st' es st'') : Changes st (ds ++ es) st'' := by
  induction h with
  | none h => exact h'.after_keeps h
  | assign h _ ih => exact .assign h (ih h')

theorem slots_eq (h : Changes st ds st') {r : ObjectRef} (hr : r < st.objects.size) :
    st'.slots r = (st.slots r).assigned r ds := by
  induction h with
  | none h => exact h.slots_eq hr
  | @assign st st' d ds h _ ih =>
    have hbefore : r < d.before.objects.size := Nat.lt_of_lt_of_le hr h.objects_size_le
    have hsize : d.after.objects.size = d.before.objects.size := objects_size_putSlot ..
    rw [ih (hsize ▸ hbefore), Slots.assigned, Slots.assigned, List.foldl_cons, ← h.slots_eq hr]
    congr 1
    by_cases hd : d.object = r
    · subst hd
      rw [if_pos rfl]
      exact slots_putSlot hbefore _ _
    · rw [if_neg hd]
      exact slots_putSlot_of_ne (Ne.symm hd) _ _

end Store.Changes

variable {α β : Type}

namespace Eval

/-- What a statement does with an assignment to a member. -/
def performed (a : Assignment) : Eval Unit := modify a.perform

/-- Makes an assignment, or fails before it is made. -/
def failing (stop : Store → Assignment → Bool) (f : Fault) (a : Assignment) : Eval Unit := do
  if stop (← get) a then throw f else performed a

theorem failing_of_stop {stop : Store → Assignment → Bool} {a : Assignment} {st : Store} (f : Fault)
    (h : stop st a) :
    (failing stop f a).result st = .error f ∧ (failing stop f a).after st = st := by
  unfold failing
  rw [result_bind_ok (result_get st), after_bind_ok (result_get st), if_pos h]
  exact ⟨rfl, rfl⟩

theorem failing_of_pass {stop : Store → Assignment → Bool} {a : Assignment} {st : Store} (f : Fault)
    (h : stop st a = false) : (failing stop f a).result st = (performed a).result st ∧
      (failing stop f a).after st = (performed a).after st := by
  unfold failing
  rw [result_bind_ok (result_get st), after_bind_ok (result_get st), if_neg (by simp [h])]
  exact ⟨rfl, rfl⟩

/-- The second evaluation fails where the first one comes to this assignment, or else does the
same. -/
def Stops (f : Fault) (m m' : Eval α) (st : Store) : Option Assigned → Prop
  | none => m'.result st = m.result st ∧ m'.after st = m.after st
  | some d => m'.result st = .error f ∧ m'.after st = d.before

/-- From whatever store, certain assignments are made. An evaluation that fails before the first of
some of them does the same up to there. -/
def Assigns (m : (Assignment → Eval Unit) → Eval α) : Prop :=
  ∀ st, ∃ done : List Assigned, st.Changes done ((m performed).after st) ∧
    ∀ (stop : Store → Assignment → Bool) (f : Fault), (∀ pos, f.locate pos = f) →
      Stops f (m performed) (m (failing stop f)) st
        (done.find? fun d => stop d.before d.toAssignment)

namespace Assigns
variable {host : Host}

theorem const {m : Eval α} (h : m.Respects Store.Keeps) : Assigns fun _ => m :=
  fun st => ⟨[], .none (h st), fun _ _ _ => ⟨rfl, rfl⟩⟩

theorem bind {m : (Assignment → Eval Unit) → Eval α} {f : (Assignment → Eval Unit) → α → Eval β}
    (hm : Assigns m) (hf : ∀ a, Assigns fun put => f put a) :
    Assigns fun put => m put >>= f put := by
  intro st
  obtain ⟨done, hchanges, hstops⟩ := hm st
  cases hresult : (m performed).result st with
  | error e =>
    have hafter : (m performed >>= f performed).after st = (m performed).after st := by
      rw [after_bind, hresult]
    refine ⟨done, by rwa [hafter], fun stop fault hfault => ?_⟩
    have hstop := hstops stop fault hfault
    cases hfirst : done.find? fun d => stop d.before d.toAssignment with
    | none =>
      rw [hfirst] at hstop
      obtain ⟨hsame, hsame'⟩ : _ ∧ _ := hstop
      constructor
      · rw [result_bind, result_bind, hsame, hresult]
      · rw [after_bind, after_bind, hsame, hresult, hsame']
    | some d =>
      rw [hfirst] at hstop
      obtain ⟨herror, hbefore⟩ : _ ∧ _ := hstop
      constructor
      · rw [result_bind, herror]
      · rw [after_bind, herror, hbefore]
  | ok a =>
    obtain ⟨done', hchanges', hstops'⟩ := hf a ((m performed).after st)
    refine ⟨done ++ done', ?_, fun stop fault hfault => ?_⟩
    · rw [after_bind_ok hresult]
      exact hchanges.trans hchanges'
    have hstop := hstops stop fault hfault
    rw [List.find?_append]
    cases hfirst : done.find? fun d => stop d.before d.toAssignment with
    | none =>
      rw [hfirst] at hstop
      obtain ⟨hsame, hsame'⟩ : _ ∧ _ := hstop
      have hok := hsame.trans hresult
      have hstop' := hstops' stop fault hfault
      rw [Option.none_or]
      cases hnext : done'.find? fun d => stop d.before d.toAssignment with
      | none =>
        rw [hnext] at hstop'
        constructor
        · rw [result_bind_ok hok, result_bind_ok hresult, hsame']
          exact hstop'.1
        · rw [after_bind_ok hok, after_bind_ok hresult, hsame']
          exact hstop'.2
      | some d =>
        rw [hnext] at hstop'
        constructor
        · rw [result_bind_ok hok, hsame']
          exact hstop'.1
        · rw [after_bind_ok hok, hsame']
          exact hstop'.2
    | some d =>
      rw [hfirst] at hstop
      obtain ⟨herror, hbefore⟩ : _ ∧ _ := hstop
      constructor
      · rw [result_bind, herror]
      · rw [after_bind, herror, hbefore]

theorem rethrow {m : (Assignment → Eval Unit) → Eval α} (pos : Option Pos) (hm : Assigns m) :
    Assigns fun put => tryCatch (m put) fun f => throw (f.locate pos) := by
  intro st
  obtain ⟨done, hchanges, hstops⟩ := hm st
  refine ⟨done, by rwa [after_tryCatch_throw], fun stop fault hfault => ?_⟩
  have hstop := hstops stop fault hfault
  cases hfirst : done.find? fun d => stop d.before d.toAssignment with
  | none =>
    rw [hfirst] at hstop
    constructor
    · rw [result_tryCatch_throw, result_tryCatch_throw, hstop.1]
    · rw [after_tryCatch_throw, after_tryCatch_throw, hstop.2]
  | some d =>
    rw [hfirst] at hstop
    constructor
    · rw [result_tryCatch_throw, hstop.1]
      exact congrArg Except.error (hfault pos)
    · rw [after_tryCatch_throw, hstop.2]

/-- An assignment is one. -/
theorem put (a : Assignment) : Assigns fun put => put a := by
  intro st
  refine ⟨[⟨a, st⟩], .assign (.refl st) (.none (.refl _)), fun stop fault _ => ?_⟩
  cases hstop : stop st a with
  | true =>
    have hfirst : ([⟨a, st⟩] : List Assigned).find? (fun d => stop d.before d.toAssignment) =
        some ⟨a, st⟩ := by simp [hstop]
    rw [hfirst]
    exact failing_of_stop fault hstop
  | false =>
    have hfirst : ([⟨a, st⟩] : List Assigned).find? (fun d => stop d.before d.toAssignment) =
        none := by simp [hstop]
    rw [hfirst]
    exact failing_of_pass fault hstop

end Assigns
end Eval

instance : IsPreorder Store Store.Keeps where
  refl := .refl
  trans _ _ _ := .trans

namespace Eval

theorem Adds.keeps {m : Eval α} (h : Adds m) : m.Respects Store.Keeps :=
  h.mono fun _ _ => Store.Grows.toKeeps

/-- Objects and functions stay where a frame changes. -/
theorem keeps_of_frames {f : Store → α × Store} (hobjects : ∀ st, (f st).2.objects = st.objects)
    (hfunctions : ∀ st, (f st).2.functions = st.functions) :
    (modifyGet f : Eval α).Respects Store.Keeps := by
  intro st
  rw [after_modifyGet]
  exact ⟨fun r _ => by rw [hobjects], fun r _ => by rw [hfunctions]⟩

theorem keeps_innerScope (scope : Scope) : (innerScope scope).Respects Store.Keeps :=
  keeps_of_frames (fun _ => rfl) fun _ => rfl

theorem keeps_bind (scope : Scope) (name : String) (v : Value) :
    (Eval.bind scope name v).Respects Store.Keeps :=
  keeps_of_frames (fun _ => rfl) fun _ => rfl

/-- Whatever is no assignment to a member makes none. -/
def Assigns.logic (host : Host) : StoreLogic host (Assignment → Eval Unit) where
  World := Unit
  Later _ _ := True
  Holds _ := Assigns
  Place := Scope
  scopeOf scope _ := scope
  Sees _ _ := True
  Finds _ _ := True
  Owns _ _ := True
  Knows _ := True
  sees := id
  finds := id
  later _ := id
  pure a := .const (.pure a)
  throw _ := .const (.throw _)
  hostFails _ _ := .const (.throw _)
  bind := .bind
  datum v := .const (.datum v)
  equal v w := .const (.equal v w)
  holds? _ _ := .const (.finite _)
  truthy v := .const (.truthy v)
  slotsOf r := .const (.slotsOf r)
  lookup _ _ := .const (.bind .get fun _ => .pure _)
  newObject slots := .const (Adds.newObject slots).keeps
  stringMethod _ _ := .const (Adds.newFunction _).keeps
  objectMethod _ _ := .const (Adds.newFunction _).keeps
  hostFunction _ := .const (Adds.newFunction _).keeps
  innerScope _ h :=
    .bind (.const (keeps_innerScope _)) fun inner => h () inner trivial trivial
  bindName name v _ := .const (keeps_bind _ name v)
  findTest name := fun _ h =>
    .bind (.const (Respects.findTest _ name)) fun found => h found trivial
  hostTest name _ v args _ := .const (Adds.runTest host name _ v args).keeps

/-- Runs a statement, but does with the assignment to a member what `put` says. -/
def stmtWith (put : Assignment → Eval Unit) (host : Host) (ev : Evaluator) (s : Stmt)
    (scope : Scope) : Eval Flow := do
  match s with
  | .assign target e =>
    assignWith (fun r name v => put ⟨r, name, v⟩) ev scope target (← ev.expr e scope)
    return .text ""
  | .capture target body =>
    assignWith (fun r name v => put ⟨r, name, v⟩) ev scope target
      (.string (← closedBlock ev scope body))
    return .text ""
  | s => stmtInner host ev s scope

theorem stmtWith_performed (host : Host) (ev : Evaluator) :
    stmtWith performed host ev = stmtInner host ev := by
  funext s scope
  cases s <;> rfl

/-- A logic holds of statements if it holds of the blocks and calls in them, of assignments to
members and of making a macro or a call block. -/
theorem Logic.Holds.stmtWith {host : Host} {ι : Type} {L : StoreLogic host ι} {ω : L.World}
    {ev : ι → Evaluator} {put : ι → Assignment → Eval Unit} {scope : L.Place} (hev : L.Covers ev)
    (hcall : L.CoversCalls ev) (hstmt : L.CoversStmts ev) (hput : ∀ a, L.Holds ω fun i => put i a)
    (hdefined : ∀ name ps body, L.Holds ω fun _ => newFunction (.defined name ps body))
    (hcaller : ∀ ω' names body (home : L.Place), L.Sees ω' home →
      L.Holds ω' fun i => newFunction (.caller names body (L.scopeOf home i)))
    (hscope : L.Owns ω scope) (s : Stmt) :
    L.Holds ω fun i => Eval.stmtWith (put i) host (ev i) s (L.scopeOf scope i) := by
  have hbody (body : List Stmt) (ω' : L.World) (inner : L.Place) (hinner : L.Owns ω' inner) :=
    block hstmt hinner "" body
  have hassign (target : Expr) (v : Value) : L.Holds ω fun i =>
      Eval.assignWith (fun r name v => put i ⟨r, name, v⟩) (ev i) (L.scopeOf scope i) target v :=
    .assignWith hev hscope (fun r name v => hput ⟨r, name, v⟩) target v
  unfold Eval.stmtWith
  cases s with
  | assign target e =>
    exact (hev e hscope.admits).bind fun v => (hassign target v).bind fun _ => .pure _
  | capture target body =>
    exact (closedBlock (hbody body ω scope hscope)).bind fun t =>
      (hassign target _).bind fun _ => .pure _
  | comment w => exact .pure _
  | text w => exact .pure _
  | output e => exact (hev e hscope.admits).bind fun v => .output v
  | choice test body alternate =>
    exact (hev test hscope.admits).bind fun v => (truthy v).bind fun b => hbody _ ω scope hscope
  | loop target iterable body default =>
    exact .loop hev target iterable (hbody body) (hbody default) (L.sees hscope)
  | defineMacro name params body =>
    refine (mapM param params).bind fun ps => (hdefined _ ps body).bind fun v => ?_
    exact (bindName hscope _ v).bind fun _ => .pure _
  | callBlock callee as params body =>
    exact (callBlock hev hcall hscope.admits callee as _ fun ω' names hlater =>
      hcaller ω' names body scope (L.later hlater (L.sees hscope))).bind fun v => .output v
  | filterBlock f body =>
    exact (closedBlock (hbody body ω scope hscope)).bind fun t =>
      (filterBy hev hscope.admits _ f).bind fun v => .output v
  | control signal w => exact .pure _

end Eval

/-- Evaluates what nests at most `n` deep, but does with assignments to members what `put` says. -/
def Evaluator.assigning (put : Assignment → Eval Unit) (host : Host) : Nat → Evaluator
  | 0 => ⟨fun _ _ => throw .endless, fun _ _ => throw .endless⟩
  | n + 1 =>
    ⟨Eval.expr host (assigning put host n), fun s scope =>
      tryCatch (Eval.stmtWith put host (assigning put host n) s scope) fun f =>
        throw (f.locate s.pos?)⟩

theorem Evaluator.assigning_performed (host : Host) (n : Nat) :
    assigning Eval.performed host n = within host n := by
  induction n with
  | zero => rfl
  | succ n ih =>
    rw [assigning, ih, Eval.stmtWith_performed]
    rfl

/-- Evaluators that make assignments as they are told, and otherwise do the same. -/
structure Evaluator.Assigns (ev : (Assignment → Eval Unit) → Evaluator) : Prop where
  expr : ∀ e scope, Eval.Assigns fun put => (ev put).expr e scope
  stmt : ∀ s scope, Eval.Assigns fun put => (ev put).stmt s scope

namespace Eval.Assigns
variable {ev : (Assignment → Eval Unit) → Evaluator}

theorem holds_const (host : Host) {m : Eval α} (h : m.Respects Store.Keeps) :
    (logic host).Holds () fun _ => m := const h

theorem holds_put (host : Host) (a : Assignment) : (logic host).Holds () fun put => put a := put a

theorem covers (host : Host) (hev : Evaluator.Assigns ev) : (logic host).Covers ev :=
  fun _ e scope _ => hev.expr e scope

theorem coversStmts (host : Host) (hev : Evaluator.Assigns ev) : (logic host).CoversStmts ev :=
  fun _ s scope _ => hev.stmt s scope

theorem block (host : Host) (hev : Evaluator.Assigns ev) (scope : Scope) (before : Text)
    (body : List Stmt) : (logic host).Holds () fun put => Eval.block (ev put) scope before body :=
  Logic.Holds.block (L := logic host) (coversStmts host hev) trivial before body

theorem callFunction (host : Host) (hev : Evaluator.Assigns ev) (f : Function) (a : Args)
    (scope : Scope) :
    (logic host).Holds () fun put => Eval.callFunction (ev put) host f a scope :=
  have hscope : (logic host).Sees () scope := trivial
  Logic.Holds.callFunction (covers host hev) (coversStmts host hev)
    (fun _ _ home _ => ⟨home, trivial, fun _ => rfl⟩) a hscope

theorem callValue (host : Host) (hev : Evaluator.Assigns ev) : (logic host).CoversCalls ev := by
  intro _ v a scope _
  unfold Eval.callValue
  cases v with
  | function r =>
    exact (holds_const host .get).bind fun st => callFunction host hev (st.function r) a scope
  | _ => exact .fail _

theorem stmtWith (host : Host) (hev : Evaluator.Assigns ev) (s : Stmt) (scope : Scope) :
    (logic host).Holds () fun put => Eval.stmtWith put host (ev put) s scope :=
  Logic.Holds.stmtWith (covers host hev) (callValue host hev) (coversStmts host hev)
    (holds_put host) (fun _ _ _ => holds_const host (Adds.newFunction _).keeps)
    (fun _ _ _ _ _ => holds_const host (Adds.newFunction _).keeps) trivial s

end Eval.Assigns

theorem Evaluator.assigning_assigns (host : Host) (n : Nat) :
    Assigns fun put => assigning put host n := by
  induction n with
  | zero => exact ⟨fun _ _ => .const (.throw _), fun _ _ => .const (.throw _)⟩
  | succ n ih =>
    have hcovers := Eval.Assigns.covers host ih
    have hcall := Eval.Assigns.callValue host ih
    refine ⟨fun e scope => Eval.Assigns.rethrow e.pos? ?_, fun s scope => ?_⟩
    · have hrun : (Eval.Assigns.logic host).Holds () fun put =>
          Eval.exprInner host (assigning put host n) e scope :=
        Eval.Logic.Holds.exprInner hcovers ⟨trivial, trivial⟩ hcall e
      exact hrun
    · exact Eval.Assigns.rethrow s.pos? (Eval.Assigns.stmtWith host ih s scope)

namespace Eval

/-- From whatever store, the objects that are there change by the assignments that are made to their
members, each of which changes one member of one object, and by nothing else. The assignments are
those that the evaluation makes: where any of them are failures, it fails at the first of those. -/
def ChangesByAssignment (m : (Assignment → Eval Unit) → Eval α) : Prop :=
  ∀ st, ∃ done : List Assigned,
    (∀ r < st.objects.size, ((m performed).after st).slots r = (st.slots r).assigned r done) ∧
    (∀ r < st.objects.size, (∀ d ∈ done, d.object ≠ r) →
      ((m performed).after st).slots r = st.slots r) ∧
    (∀ d ∈ done, d.object < d.before.objects.size → d.ChangesOneMember) ∧
    ∀ (stop : Store → Assignment → Bool) (f : Fault), (∀ pos, f.locate pos = f) →
      Stops f (m performed) (m (failing stop f)) st
        (done.find? fun d => stop d.before d.toAssignment)

theorem Assigns.changesByAssignment {m : (Assignment → Eval Unit) → Eval α} (h : Assigns m) :
    ChangesByAssignment m := by
  intro st
  obtain ⟨done, hchanges, hstops⟩ := h st
  refine ⟨done, fun r hr => hchanges.slots_eq hr, fun r hr hne => ?_,
    fun d _ hd => Assigned.changesOneMember hd, hstops⟩
  rw [hchanges.slots_eq hr, Slots.assigned_of_forall_ne hne]

/-- A call of what is no function of a template. -/
theorem keeps_callFunction (host : Host) (ev : Evaluator) {f : Function} (a : Args) (scope : Scope)
    (hdefined : ∀ name params body, f ≠ .defined name params body)
    (hcaller : ∀ params body home, f ≠ .caller params body home) :
    (callFunction ev host f a scope).Respects Store.Keeps := by
  cases f with
  | range => exact (Adds.callRange a).keeps
  | raiseException => exact (Adds.callRaise a).keeps
  | newNamespace => exact (Adds.callNamespace a).keeps
  | stringMethod s m => exact (Adds.callStringMethod s m a).keeps
  | objectMethod r m => exact (Adds.callObjectMethod r m a).keeps
  | defined name params body => exact absurd rfl (hdefined name params body)
  | caller params body home => exact absurd rfl (hcaller params body home)
  | host f => exact (Adds.callHost host f a).keeps

end Eval

/-- **Only assignments to members change objects.** So it is for expressions, statements and whole
programs, whether they answer or fail; filters, operators, slices and calls of what is no function
of a template leave all objects as they are. -/
theorem Evaluator.objects_change_by_assignment (host : Host) (n : Nat) :
    assigning Eval.performed host n = within host n ∧
      (∀ e scope, Eval.ChangesByAssignment fun put => (assigning put host n).expr e scope) ∧
      (∀ s scope, Eval.ChangesByAssignment fun put => (assigning put host n).stmt s scope) ∧
      (∀ (p : Program) scope,
        Eval.ChangesByAssignment fun put => Eval.closedBlock (assigning put host n) scope p) ∧
      (∀ scope keywords name positional v,
        (Eval.applyFilter host scope keywords name positional v).Respects Store.Keeps) ∧
      (∀ op v w, (Eval.binary op v w).Respects Store.Keeps) ∧
      (∀ v start stop step, (Eval.slice v start stop step).Respects Store.Keeps) ∧
      ∀ (f : Function) a scope, (∀ name params body, f ≠ .defined name params body) →
        (∀ params body home, f ≠ .caller params body home) →
        (Eval.callFunction (within host n) host f a scope).Respects Store.Keeps := by
  have hassigns := assigning_assigns host n
  refine ⟨assigning_performed host n, fun e scope => (hassigns.expr e scope).changesByAssignment,
    fun s scope => (hassigns.stmt s scope).changesByAssignment, fun p scope => ?_,
    fun scope keywords name positional v =>
      (Eval.Adds.applyFilter host scope keywords name positional v).keeps,
    fun op v w => (Eval.Adds.binary op v w).keeps,
    fun v start stop step => (Eval.Adds.slice v start stop step).keeps,
    fun f a scope => Eval.keeps_callFunction host _ a scope⟩
  have hprogram : Eval.Assigns fun put => Eval.closedBlock (assigning put host n) scope p :=
    Eval.Logic.Holds.closedBlock (Eval.Assigns.block host hassigns scope "" p)
  exact hprogram.changesByAssignment

end ChatTemplate
