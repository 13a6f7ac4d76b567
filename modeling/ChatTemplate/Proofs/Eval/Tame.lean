import ChatTemplate.Proofs.Eval.FilterPrimitives
import ChatTemplate.Proofs.Eval.Scopes
import ChatTemplate.Proofs.Grammar.Parts
import ChatTemplate.Template

/-!
# Failures that the shape of a program decides

Three failures come from what stands in a program and not from the values it meets: a signal that
leaves the body it is written in, a filter that is no name, and a numeral that spells no number.
`Expr.Tame Q` and `Stmt.Tame Q` say of one node that it gives rise to those only that `Q` allows.
Where this holds of all nodes of a program and of the functions in the store, a program fails with
what `Q` allows only, no signal leaves a statement for a loop that is not around it, and the
functions that the program adds to the store are tame again.

So evaluations keep to any contract that allows what single steps do (`Contract.Liberal`,
`Evaluator.within_tame`). They give no name twice, neither to the slots of a new object nor to the
keywords of a call, so that a contract may ask that of new objects.
-/

namespace ChatTemplate
variable {host : Host} {Q : Fault → Prop}

/-- What operations fail with is allowed, whatever its place. -/
structure Permits (Q : Fault → Prop) : Prop where
  error : ∀ cause : Cause, cause.ordinary → Q (.error cause none)
  escape : ∀ why : Escape, why.Known → Q (.escape why)
  endless : Q .endless
  locate : ∀ f pos, Q f → Q (f.locate pos)

/-- The failure is no error of such a cause. -/
def Fault.Avoids (bad : Cause → Bool) (f : Fault) : Prop :=
  ∀ cause pos, f = .error cause pos → bad cause = false

theorem Fault.avoids_escape {bad : Cause → Bool} (why : Escape) : Avoids bad (.escape why) := nofun

theorem Fault.avoids_error {bad : Cause → Bool} {cause : Cause} (pos : Option Pos)
    (h : bad cause = false) : Avoids bad (.error cause pos) := by
  intro cause' pos' heq
  cases heq
  exact h

/-- Causes that no operation gives can be ruled out. -/
theorem Fault.avoids_permits {bad : Cause → Bool}
    (hbad : ∀ cause : Cause, cause.ordinary → bad cause = false) : Permits (Fault.Avoids bad) where
  error cause hcause := avoids_error none (hbad cause hcause)
  escape why _ := avoids_escape why
  endless := nofun
  locate f pos hf cause pos' h := by
    unfold Fault.locate at h
    split at h
    · cases h
      exact hf cause none rfl
    · exact hf cause pos' h

def Expr.Tame (Q : Fault → Prop) : Expr → Prop
  | .int w => (Number.readInt? (Text.toList w.text)).isSome ∨
    Q (.escape (@Escape.badValue (.numeral w.text)))
  | .float w => (Number.readFloat? (Text.toList w.text)).isSome ∨
    Q (.escape (@Escape.badValue (.numeral w.text)))
  | .filter _ f => f.namesFilter ∨ ∀ name, Q (.error (.unknownFilter name none) none)
  | _ => True

/-- A statement that may give a signal stands inside a loop, unless that error is allowed. -/
def Stmt.Tame (Q : Fault → Prop) (inside : Bool) : Stmt → Prop
  | .control signal _ => inside ∨ Q (.error (.signalOutsideLoop signal) none)
  | .filterBlock f _ => f.namesFilter ∨ ∀ name, Q (.error (.unknownFilter name none) none)
  | _ => True

/-- All nodes of the statements are tame. -/
def Stmt.AllTame (Q : Fault → Prop) (inside : Bool) (ss : List Stmt) : Prop :=
  ∀ s ∈ ss, s.Holds (Expr.Tame Q) (Stmt.Tame Q) inside

def Flow.Tame (Q : Fault → Prop) (inside : Bool) : Flow → Prop
  | .text _ => True
  | .signal sig _ => inside ∨ Q (.error (.signalOutsideLoop sig) none)

def Param.Tame (Q : Fault → Prop) (p : Param) : Prop := ∀ e, p.default = some e → e.All (Expr.Tame Q)

/-- A loop around the definition of a macro or around a call block is no loop of its body. -/
def Function.Tame (host : Host) (Q : Fault → Prop) : Function → Prop
  | .defined _ params body => (∀ p ∈ params, p.Tame Q) ∧ Stmt.AllTame Q false body
  | .caller _ body _ => Stmt.AllTame Q false body
  | .host _ => host.Allowed Q
  | _ => True

theorem Function.tame_of_isMethod {f : Function} (h : f.isMethod) : f.Tame host Q := by
  cases f with
  | stringMethod s m => exact trivial
  | objectMethod r m => exact trivial
  | _ => cases h

namespace Store

/-- Unless the host may fail as it does, no test has been added. -/
structure Tame (host : Host) (Q : Fault → Prop) (st : Store) : Prop where
  function : ∀ r, (st.function r).Tame host Q
  tests : host.Allowed Q ∨ ∀ r, (st.frame r).tests = []

namespace Tame
variable {st : Store} (h : st.Tame host Q)
include h

theorem pushObject (slots : Slots Text Value) : (st.pushObject slots).Tame host Q := ⟨h.function, h.tests⟩

theorem putSlot (r : ObjectRef) (name : Text) (v : Value) : (st.putSlot r name v).Tame host Q :=
  ⟨h.function, h.tests⟩

theorem pushFunction {f : Function} (hf : f.Tame host Q) : (st.pushFunction f).Tame host Q := by
  refine ⟨fun r => ?_, h.tests⟩
  rw [Store.function, Store.pushFunction, Array.getElem?_push]
  split
  · exact hf
  · exact h.function r

theorem pushFrame (vars : Slots String Value) : (st.pushFrame vars).Tame host Q := by
  refine ⟨h.function, h.tests.imp_right fun htests r => ?_⟩
  rw [Store.frame, Store.pushFrame, Array.getElem?_push]
  split
  · rfl
  · exact htests r

theorem bind (r : FrameRef) (name : String) (v : Value) : (st.bind r name v).Tame host Q := by
  refine ⟨h.function, h.tests.imp_right fun htests r' => ?_⟩
  have hframe := htests r'
  rw [Store.frame] at hframe ⊢
  rw [Store.bind, Array.getElem?_modify]
  split
  · cases hr' : st.frames[r']? with
    | none => rfl
    | some f =>
      rw [hr'] at hframe
      exact hframe
  · exact hframe

end Tame
end Store

/-- The stores that are tame, and what `Q` allows. -/
def Contract.tame (host : Host) (Q : Fault → Prop) : Contract where
  store := Store.Tame host Q
  fault := Q

theorem Contract.tame_open (h : host.Allowed Q) : (Contract.tame host Q).Open host :=
  ⟨h, fun _ _ hst => hst.pushFunction h⟩

theorem Contract.tame_scoped : (Contract.tame host Q).Scoped :=
  ⟨fun _ vars hst => hst.pushFrame vars, fun _ r name v hst => hst.bind r name v⟩

theorem Contract.tame_lenient (hQ : Permits Q) : (Contract.tame host Q).Lenient host where
  toClosed := .of_forall fun _ => trivial
  distinct _ _ _ := trivial
  pushObject _ slots _ hst := hst.pushObject slots
  pushMethod _ _ hf hst := hst.pushFunction (Function.tame_of_isMethod hf)
  ordinary := hQ.error
  known := hQ.escape
  endless := hQ.endless
  tests := by
    by_cases hopen : host.Allowed Q
    · exact .inl hopen
    refine .inr fun st hst scope name test htest => ?_
    have hnone := hst.tests.resolve_left hopen scope.inner
    rw [Store.test?, hnone] at htest
    obtain ⟨b, hb, rfl⟩ := Option.map_eq_some_iff.mp htest
    exact ⟨b, rfl, hb⟩

/-- The contract allows what evaluations of tame programs do, of which all functions are tame. -/
structure Contract.Liberal (c : Contract) (host : Host) : Prop extends c.Lenient host, c.Scoped where
  value : ∀ v, c.value v
  function : ∀ st r, c.store st → (st.function r).Tame host c.fault
  pushFunction : ∀ st (f : Function), f.Tame host c.fault → c.store st → c.store (st.pushFunction f)
  putSlot : ∀ st r name v, c.store st → c.store (st.putSlot r name v)
  locate : ∀ f pos, c.fault f → c.fault (f.locate pos)

theorem Contract.tame_liberal (hQ : Permits Q) : (Contract.tame host Q).Liberal host where
  toLenient := tame_lenient hQ
  toScoped := tame_scoped
  value _ := trivial
  function _ r hst := hst.function r
  pushFunction _ _ hf hst := hst.pushFunction hf
  putSlot _ r name v hst := hst.putSlot r name v
  locate := hQ.locate

theorem Contract.Liberal.toOpen {c : Contract} (hc : c.Liberal host)
    (h : host.Allowed c.fault) : c.Open host :=
  ⟨h, fun st f hst => hc.pushFunction st (.host f) h hst⟩

/-! ### Names given once -/

theorem Text.nodup_map_ofString {names : List String} (h : names.Nodup) :
    (names.map ofString).Nodup :=
  List.pairwise_map.mpr (h.imp fun hne heq => hne (ofString_injective heq))

theorem Args.nodup_names_slots {a : Args} (h : a.keywords.names.Nodup) : a.slots.names.Nodup := by
  have hnames : a.slots.names = a.keywords.names.map Text.ofString := by
    simp [Args.slots, Slots.names]
  exact hnames ▸ Text.nodup_map_ofString h

theorem Eval.nodup_names_loopSlots (items : Array Value) (i : Nat) :
    (loopSlots items i).names.Nodup := by
  have hnames : (loopSlots items i).names = ["index", "index0", "revindex", "revindex0", "first",
      "last", "length", "previtem", "nextitem"].map Text.ofString := rfl
  exact hnames ▸ Text.nodup_map_ofString (by decide)

namespace Contract.Liberal
variable {c : Contract} (hc : c.Liberal host)
include hc

theorem slots {slots : Slots Text Value} (h : slots.names.Nodup) : c.slots slots :=
  hc.distinct slots h fun e _ => hc.value e.2

theorem allowed {a : Args} (h : a.keywords.names.Nodup) : a.Allowed c :=
  ⟨fun v _ => hc.value v, fun e _ => hc.value e.2, hc.slots (Args.nodup_names_slots h)⟩

end Contract.Liberal

/-! ### Evaluations -/

/-- Tame expressions and statements keep to the contract. -/
structure Evaluator.Tame (c : Contract) (ev : Evaluator) : Prop where
  expr : ∀ e s, e.All (Expr.Tame c.fault) → Eval.Meets c (ev.expr e s)
  stmt : ∀ inside x s, x.Holds (Expr.Tame c.fault) (Stmt.Tame c.fault) inside →
    Eval.Returns c (Flow.Tame c.fault inside) (ev.stmt x s)

namespace Eval.Tame
variable {c : Contract} (hc : c.Liberal host)

section
include hc

theorem newFunction {f : Function} (hf : f.Tame host c.fault) : Meets c (Eval.newFunction f) :=
  .modifyGet fun st hst => ⟨trivial, hc.pushFunction st f hf hst⟩

theorem param {a : Arg} (ha : a.value.All (Expr.Tame c.fault)) :
    Returns c (Param.Tame c.fault) (Eval.param a) := by
  unfold Eval.param
  split
  · exact .pure nofun
  · refine .pure fun e he => ?_
    cases he
    exact ha
  · exact hc.fail rfl

theorem output (v : Value) (inside : Bool) :
    Returns c (Flow.Tame c.fault inside) (Eval.output v) := by
  unfold Eval.output
  split
  · exact .pure trivial
  · exact .pure trivial
  · exact (hc.textOf v).bind fun _ => .pure trivial

end

/-! ### Blocks -/

variable {ev : Evaluator} (hev : ev.Tame c)

include hev

theorem block {inside : Bool} (scope : Scope) (before : Text) {body : List Stmt}
    (hbody : Stmt.AllTame c.fault inside body) :
    Returns c (Flow.Tame c.fault inside) (Eval.block ev scope before body) := by
  induction body generalizing before with
  | nil => exact .pure trivial
  | cons s ss ih =>
    unfold Eval.block
    refine (hev.stmt inside s scope (hbody s List.mem_cons_self)).bind fun flow hflow => ?_
    cases flow with
    | text t => exact ih _ fun s' hs' => hbody s' (List.mem_cons_of_mem s hs')
    | signal signal t => exact .pure hflow

theorem closedBlock (scope : Scope) {body : List Stmt} (hbody : Stmt.AllTame c.fault false body) :
    Meets c (Eval.closedBlock ev scope body) := by
  unfold Eval.closedBlock
  refine (block hev scope "" hbody).bind fun flow hflow => ?_
  cases flow with
  | text t => exact .pure trivial
  | signal signal t => exact .throw (hflow.resolve_left nofun)

include hc

/-! ### Calls -/

theorem args (scope : Scope) {as : List Arg} (has : ∀ a ∈ as, a.value.All (Expr.Tame c.fault))
    (given : Args) (hgiven : given.keywords.names.Nodup) :
    Returns c (fun a => a.keywords.names.Nodup) (Eval.args ev scope as given) := by
  induction as generalizing given with
  | nil => exact .pure hgiven
  | cons a as ih =>
    have ha := has a List.mem_cons_self
    replace ih := ih fun a' ha' => has a' (List.mem_cons_of_mem a ha')
    unfold Eval.args
    cases a with
    | positional e => exact (hev.expr e scope ha).bind fun v => ih _ hgiven
    | keyword w e =>
      exact (hev.expr e scope ha).bind fun v => ih _ (Slots.nodup_names_put hgiven w.text v)
    | spread e =>
      refine (hev.expr e scope ha).bind fun v => ?_
      cases v with
      | array items => exact ih _ hgiven
      | _ => exact hc.fail rfl

theorem bindParams (scope : Scope) (keywords : Slots String Value) {params : List Param}
    (hparams : ∀ p ∈ params, p.Tame c.fault) (positional : List Value) :
    Meets c (Eval.bindParams ev scope keywords params positional) := by
  induction params generalizing positional with
  | nil => exact .pure trivial
  | cons p ps ih =>
    have bound (v : Value) (rest : List Value) : Meets c (do
        Eval.bind scope p.name v
        Eval.bindParams ev scope keywords ps rest) :=
      (hc.bindName scope p.name v).bind fun _ =>
        ih (fun p' hp' => hparams p' (List.mem_cons_of_mem p hp')) _
    unfold Eval.bindParams
    dsimp only
    split
    · exact bound _ _
    · exact bound _ _
    · rename_i e _ he
      exact (hev.expr e scope (hparams p List.mem_cons_self e he)).bind fun v => bound v _
    · exact hc.fail_bind rfl

theorem callMacro (name : String) {params : List Param} (hparams : ∀ p ∈ params, p.Tame c.fault)
    {body : List Stmt} (hbody : Stmt.AllTame c.fault false body) (a : Args) (scope : Scope) :
    Meets c (Eval.callMacro ev name params body a scope) := by
  unfold Eval.callMacro
  refine (hc.innerScope scope).bind fun inner => ?_
  have ran : Meets c (do
      Eval.bindParams ev inner a.keywords params a.positional
      return Value.string (← Eval.closedBlock ev inner body)) :=
    (bindParams hc hev inner a.keywords hparams _).bind fun _ =>
      (closedBlock hev inner hbody).bind fun _ => .pure trivial
  dsimp only
  split
  · exact hc.fail_bind rfl
  split
  · exact hc.fail_bind rfl
  · exact ran

theorem callCaller (params : List String) {body : List Stmt}
    (hbody : Stmt.AllTame c.fault false body) (scope : Scope) (a : Args) :
    Meets c (Eval.callCaller ev params body scope a) := by
  unfold Eval.callCaller
  refine (hc.innerScope scope).bind fun inner => ?_
  refine (hc.bindAll inner _ _).bind fun _ => ?_
  exact (closedBlock hev inner hbody).bind fun _ => .pure trivial

theorem callFunction {f : Function} (hf : f.Tame host c.fault) {a : Args}
    (ha : a.keywords.names.Nodup) (scope : Scope) :
    Meets c (Eval.callFunction ev host f a scope) := by
  have hallowed := hc.allowed ha
  cases f with
  | defined name params body => exact callMacro hc hev name hf.1 hf.2 a scope
  | caller params body home => exact callCaller hc hev params hf home a
  | range => exact (hc.callRange a).meets
  | raiseException => exact (hc.callRaise hallowed.slots).meets
  | newNamespace => exact hc.callNamespace hallowed.slots
  | stringMethod s m => exact (hc.callStringMethod hallowed s m).meets
  | objectMethod r m => exact (hc.callObjectMethod hallowed r m).meets
  | host f => exact hc.callHost hc.value (hc.toOpen hf) f a

theorem callValue (v : Value) {a : Args} (ha : a.keywords.names.Nodup)
    (scope : Scope) : Meets c (Eval.callValue ev host v a scope) := by
  unfold Eval.callValue
  cases v with
  | function r =>
    exact Returns.get.bind fun st hst =>
      callFunction hc hev (hc.function st r hst) ha scope
  | _ => exact hc.fail rfl

/-! ### Expressions -/

theorem filterBy (scope : Scope) (v : Value) {f : Expr}
    (hname : f.namesFilter ∨ ∀ name, c.fault (.error (.unknownFilter name none) none))
    (hf : f.All (Expr.Tame c.fault)) : Meets c (Eval.filterBy host ev scope v f) := by
  have happly (keywords) (hkeywords : (Slots.names keywords).Nodup) (name positional) :
      Meets c (Eval.applyFilter host scope keywords name positional v) :=
    (hc.applyFilter scope name (hc.allowed hkeywords) (hc.value v)).meets
  unfold Eval.filterBy
  cases f with
  | name w => exact happly [] List.nodup_nil _ _
  | call callee as =>
    cases callee with
    | name w =>
      have has : ∀ a ∈ as, a.value.All (Expr.Tame c.fault) := fun a ha =>
        hf.part (List.mem_cons_of_mem _ (List.mem_map_of_mem ha))
      exact (args hc hev scope has .none List.nodup_nil).bind fun a ha => happly _ ha _ _
    | _ => exact .throw (hname.resolve_left nofun _)
  | _ => exact .throw (hname.resolve_left nofun _)

theorem entries (scope : Scope) (slots : Slots Text Value) (hslots : slots.names.Nodup)
    {es : List (Expr × Expr)}
    (hes : ∀ e ∈ es, e.1.All (Expr.Tame c.fault) ∧ e.2.All (Expr.Tame c.fault)) :
    Returns c (fun slots => slots.names.Nodup) (Eval.entries ev scope slots es) := by
  induction es generalizing slots with
  | nil => exact .pure hslots
  | cons e es ih =>
    have he := hes e List.mem_cons_self
    obtain ⟨k, e⟩ := e
    unfold Eval.entries
    refine (hev.expr k scope he.1).bind fun v => ?_
    cases v with
    | string name =>
      refine (hev.expr e scope he.2).bind fun w => ?_
      exact ih _ (Slots.nodup_names_put hslots name w) fun e' he' =>
        hes e' (List.mem_cons_of_mem _ he')
    | _ => exact hc.fail rfl

theorem bound (scope : Scope) {e : Option Expr}
    (he : ∀ e', e = some e' → e'.All (Expr.Tame c.fault)) :
    Meets c (Eval.bound ev scope e) := by
  cases e with
  | none => exact .pure trivial
  | some e =>
    exact (hev.expr e scope (he e rfl)).bind fun v => hc.sliceBound v

theorem operation (scope : Scope) {left right : Expr} (op : String)
    (hleft : left.All (Expr.Tame c.fault)) (hright : right.All (Expr.Tame c.fault)) :
    Meets c (Eval.operation ev scope left op right) := by
  have hright := hev.expr right scope hright
  unfold Eval.operation
  refine (hev.expr left scope hleft).bind fun v => ?_
  split
  · refine (Meets.truthy v).bind fun b => ?_
    split
    · exact hright
    · exact .pure trivial
  split
  · refine (Meets.truthy v).bind fun b => ?_
    split
    · exact .pure trivial
    · exact hright
  · exact hright.bind fun w => (hc.binary op (hc.value v) (hc.value w)).meets

theorem expr {e : Expr} (he : e.All (Expr.Tame c.fault)) (scope : Scope) :
    Meets c (Eval.expr host ev e scope) := by
  have hexpr (e') (he' : e' ∈ e.parts) : Meets c (ev.expr e' scope) :=
    hev.expr e' scope (he.part he')
  have hhere := he.here
  refine .rethrow ?_ fun f => hc.locate f _
  unfold Eval.exprInner
  cases e with
  | name w => exact Returns.get.bind fun _ _ => .pure trivial
  | int w =>
    dsimp only
    split
    · exact .pure trivial
    · rename_i hnone
      exact .throw (hhere.resolve_left (by rw [hnone]; nofun))
  | float w =>
    dsimp only
    split
    · exact .pure trivial
    · rename_i hnone
      exact .throw (hhere.resolve_left (by rw [hnone]; nofun))
  | string w => exact .pure trivial
  | bool w => exact .pure trivial
  | null w => exact .pure trivial
  | array es => exact (Meets.mapM hexpr).bind fun _ => .pure trivial
  | tuple es => exact (Meets.mapM hexpr).bind fun _ => .pure trivial
  | object es =>
    refine (entries hc hev scope [] List.nodup_nil fun p hp => ?_).bind fun slots hslots =>
      hc.newObject (hc.slots hslots)
    exact ⟨he.part (List.mem_flatMap.mpr ⟨p, hp, by simp⟩),
      he.part (List.mem_flatMap.mpr ⟨p, hp, by simp⟩)⟩
  | binary l op r =>
    exact operation hc hev scope op.text (he.part (by simp [Expr.parts]))
      (he.part (by simp [Expr.parts]))
  | unary op e =>
    refine (hexpr e (by simp [Expr.parts])).bind fun v => ?_
    split
    · exact (Meets.truthy v).bind fun _ => .pure trivial
    · exact hc.fail rfl
  | member e w =>
    exact (hexpr e (by simp [Expr.parts])).bind fun v => (hc.lookupMember (hc.value v) _).meets
  | index e k =>
    exact (hexpr e (by simp [Expr.parts])).bind fun v =>
      (hexpr k (by simp [Expr.parts])).bind fun w => (hc.lookupMember (hc.value v) w).meets
  | slice e a b c =>
    refine (hexpr e (by simp [Expr.parts])).bind fun v => ?_
    refine (bound hc hev scope fun e' h => he.part (by simp [Expr.parts, h])).bind fun start => ?_
    refine (bound hc hev scope fun e' h => he.part (by simp [Expr.parts, h])).bind fun stop => ?_
    refine (bound hc hev scope fun e' h => he.part (by simp [Expr.parts, h])).bind fun step => ?_
    exact (hc.slice (hc.value v) start stop step).meets
  | call f as =>
    have has : ∀ a ∈ as, a.value.All (Expr.Tame c.fault) := fun a ha =>
      he.part (List.mem_cons_of_mem _ (List.mem_map_of_mem ha))
    refine (args hc hev scope has .none List.nodup_nil).bind fun a ha => ?_
    exact (hexpr f (by simp [Expr.parts])).bind fun v => callValue hc hev v ha scope
  | filter e f =>
    refine (hexpr e (by simp [Expr.parts])).bind fun v => ?_
    exact filterBy hc hev scope v hhere (he.part (by simp [Expr.parts]))
  | test e negated w =>
    refine (hexpr e (by simp [Expr.parts])).bind fun v => ?_
    refine (hc.findTest scope _).bind fun found hfound => ?_
    exact (hc.runTest v [] hfound).bind fun _ => .pure trivial
  | select e t =>
    refine (hexpr t (by simp [Expr.parts])).bind fun v => (Meets.truthy v).bind fun b => ?_
    split
    · exact hexpr e (by simp [Expr.parts])
    · exact .pure trivial
  | ternary t y n =>
    refine (hexpr t (by simp [Expr.parts])).bind fun v => (Meets.truthy v).bind fun b => ?_
    split
    · exact hexpr y (by simp [Expr.parts])
    · exact hexpr n (by simp [Expr.parts])

/-! ### Statements -/

theorem assign (scope : Scope) {target : Expr} (htarget : target.All (Expr.Tame c.fault))
    (v : Value) : Meets c (Eval.assign ev scope target v) := by
  unfold Eval.assign
  split
  · exact (hc.binder _).bind fun b => hc.bindTo hc.toScoped scope b v
  · split
    · exact hc.fail rfl
    · exact hc.fail rfl
    · refine (hev.expr _ scope (htarget.part (by simp [Expr.parts]))).bind fun o => ?_
      split
      · exact .modify fun st hst => hc.putSlot st _ _ v hst
      · exact hc.fail rfl
    · exact hc.fail rfl

theorem passes (scope : Scope) (b : Binder) {test : Option Expr}
    (htest : ∀ e, test = some e → e.All (Expr.Tame c.fault)) (v : Value) :
    Meets c (Eval.passes ev scope b test v) := by
  unfold Eval.passes
  cases test with
  | none => exact .pure trivial
  | some e =>
    refine (hc.innerScope scope).bind fun inner => ?_
    refine (hc.bindTo hc.toScoped inner b v).bind fun _ => ?_
    exact (hev.expr e inner (htest e rfl)).bind fun v => Meets.truthy v

/-- The loop takes every signal of its body. -/
theorem rounds (scope : Scope) (b : Binder) {body : List Stmt}
    (hbody : Stmt.AllTame c.fault true body) (items : Array Value) (i : Nat) (before : Text)
    (vs : List Value) (inside : Bool) :
    Returns c (Flow.Tame c.fault inside) (Eval.rounds ev scope b body items i before vs) := by
  induction vs generalizing i before with
  | nil => exact .pure trivial
  | cons v vs ih =>
    unfold Eval.rounds
    refine (hc.newObject (hc.slots (nodup_names_loopSlots items i))).bind fun w => ?_
    refine (hc.bindName scope _ w).bind fun _ => ?_
    refine (hc.bindTo hc.toScoped scope b v).bind fun _ => ?_
    refine (block hev scope "" hbody).bind fun flow hflow => ?_
    cases flow with
    | text t => exact ih _ _
    | signal signal t =>
      cases signal with
      | «break» => exact .pure trivial
      | «continue» => exact ih _ _

omit hc hev in
theorem loopHeader {iterable : Expr} (h : iterable.All (Expr.Tame c.fault)) :
    (Eval.loopHeader iterable).1.All (Expr.Tame c.fault) ∧
      ∀ e, (Eval.loopHeader iterable).2 = some e → e.All (Expr.Tame c.fault) := by
  unfold Eval.loopHeader
  split
  · refine ⟨h.part (by simp [Expr.parts]), fun e he => ?_⟩
    cases he
    exact h.part (by simp [Expr.parts])
  · exact ⟨h, fun e he => by cases he⟩

theorem loop {inside : Bool} (scope : Scope) (target : Target) {iterable : Expr}
    {body default : List Stmt} (hiterable : iterable.All (Expr.Tame c.fault))
    (hbody : Stmt.AllTame c.fault true body) (hdefault : Stmt.AllTame c.fault inside default) :
    Returns c (Flow.Tame c.fault inside)
      (Eval.loop ev scope target iterable body default) := by
  obtain ⟨hsource, htest⟩ := loopHeader hiterable
  unfold Eval.loop
  refine (hc.innerScope scope).bind fun inner => ?_
  refine (hev.expr _ inner hsource).bind fun v => ?_
  refine (hc.loopItems v).bind fun candidates => ?_
  refine (hc.binder target).bind fun b => ?_
  refine (Meets.filterM (fun v => passes hc hev inner b htest v) candidates).bind fun items => ?_
  split
  · exact block hev inner "" hdefault
  · exact rounds hc hev inner b hbody _ _ _ _ inside

theorem callBlock (scope : Scope) (callee : Word) {as : List Arg}
    (has : ∀ a ∈ as, a.value.All (Expr.Tame c.fault)) (params : List Arg) {body : List Stmt}
    (hbody : Stmt.AllTame c.fault false body) :
    Meets c (Eval.callBlock host ev scope callee as params body) := by
  have hcallee : (Expr.name callee).All (Expr.Tame c.fault) := .node trivial nofun
  unfold Eval.callBlock
  refine (Meets.mapM fun a _ => hc.callerParam a).bind fun names => ?_
  refine (args hc hev scope has .none List.nodup_nil).bind fun a ha => ?_
  refine (hev.expr _ scope hcallee).bind fun f => ?_
  refine (hc.innerScope scope).bind fun inner => ?_
  refine (newFunction hc (f := .caller names body scope) hbody).bind fun w => ?_
  refine (hc.bindName inner _ w).bind fun _ => ?_
  exact callValue hc hev f ha inner

theorem stmt {inside : Bool} {s : Stmt}
    (hs : s.Holds (Expr.Tame c.fault) (Stmt.Tame c.fault) inside) (scope : Scope) :
    Returns c (Flow.Tame c.fault inside) (Eval.stmt host ev s scope) := by
  have hexpr (e) (he : e ∈ s.exprs) : Meets c (ev.expr e scope) :=
    hev.expr e scope (hs.expr he)
  have hhere := hs.here
  refine .rethrow ?_ fun f => hc.locate f _
  unfold Eval.stmtInner
  cases s with
  | comment w => exact .pure trivial
  | text w => exact .pure trivial
  | output e =>
    exact (hexpr e List.mem_cons_self).bind fun v => output hc v inside
  | choice test body alternate =>
    refine (hexpr test List.mem_cons_self).bind fun v => (Meets.truthy v).bind fun b => ?_
    refine block hev scope "" fun s hs' => hs.block (List.mem_map_of_mem ?_)
    split at hs'
    · exact List.mem_append_left _ hs'
    · exact List.mem_append_right _ hs'
  | loop target iterable body default =>
    refine loop hc hev scope target (hs.expr List.mem_cons_self) (fun s hs' => ?_) fun s hs' => ?_
    · exact hs.block (List.mem_append_left _ (List.mem_map_of_mem hs'))
    · exact hs.block (List.mem_append_right _ (List.mem_map_of_mem hs'))
  | assign target e =>
    refine (hexpr e (by simp [Stmt.exprs])).bind fun v => ?_
    exact (assign hc hev scope (hs.expr List.mem_cons_self) v).bind fun _ => .pure trivial
  | capture target body =>
    refine (closedBlock hev scope fun s hs' => hs.block (List.mem_map_of_mem hs')).bind fun t => ?_
    exact (assign hc hev scope (hs.expr List.mem_cons_self) _).bind fun _ => .pure trivial
  | defineMacro name params body =>
    refine (Returns.mapM fun a ha => param hc (hs.expr (List.mem_map_of_mem ha))).bind
      fun ps hps => ?_
    have hbody : Stmt.AllTame c.fault false body := fun s hs' => hs.block (List.mem_map_of_mem hs')
    refine (newFunction hc (f := .defined name.text ps body) ⟨hps, hbody⟩).bind fun v => ?_
    exact (hc.bindName scope _ v).bind fun _ => .pure trivial
  | callBlock callee as params body =>
    have has : ∀ a ∈ as, a.value.All (Expr.Tame c.fault) := fun a ha =>
      hs.expr (List.mem_append_left _ (List.mem_map_of_mem ha))
    have hbody : Stmt.AllTame c.fault false body := fun s hs' => hs.block (List.mem_map_of_mem hs')
    exact (callBlock hc hev scope callee has _ hbody).bind fun v => output hc v inside
  | filterBlock f body =>
    refine (closedBlock hev scope fun s hs' => hs.block (List.mem_map_of_mem hs')).bind fun t => ?_
    refine (filterBy hc hev scope _ hhere (hs.expr List.mem_cons_self)).bind fun v => ?_
    exact output hc v inside
  | control signal w => exact .pure hhere

end Eval.Tame

theorem Evaluator.within_tame {c : Contract} (hc : c.Liberal host) (depth : Nat) :
    (within host depth).Tame c := by
  induction depth with
  | zero => exact ⟨fun _ _ _ => .throw hc.endless, fun _ _ _ _ => .throw hc.endless⟩
  | succ n ih =>
    exact ⟨fun e s he => Eval.Tame.expr hc ih he s,
      fun inside x s hx => Eval.Tame.stmt hc ih hx s⟩

/-! ### Renderings -/

namespace Eval.Tame
variable {c : Contract} (hc : c.Liberal host)
include hc

theorem scope {vars : List (String × HostValue)} (hvars : c.Open host ∨ ∀ e ∈ vars, e.2.isData) :
    Meets c (Template.scope vars) := by
  have declared (s : Scope) {vars : List (String × HostValue)}
      (h : c.Open host ∨ ∀ e ∈ vars, e.2.isData) : Meets c (Template.declareAll s vars) :=
    hc.declareAll hc.toScoped hc.value s h
  unfold Template.scope
  refine hc.rootScope.bind fun s => (declared s (.inr (by decide))).bind fun _ => ?_
  exact (hc.innerScope s).bind fun s => (declared s hvars).bind fun _ => .pure trivial

theorem render (depth : Nat) {t : Template}
    (ht : Stmt.AllTame c.fault false t.program) {vars keywords : List (String × HostValue)}
    (hvars : c.Open host ∨ ∀ e ∈ Slots.putAll (Slots.putAll [] vars) keywords, e.2.isData) :
    Meets c (t.render host depth vars keywords) :=
  (scope hc hvars).bind fun s => closedBlock (Evaluator.within_tame hc depth) s ht

end Eval.Tame

end ChatTemplate
