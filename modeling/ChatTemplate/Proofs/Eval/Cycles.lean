import ChatTemplate.Proofs.Eval.Assignments
import ChatTemplate.Proofs.Eval.Founded
import ChatTemplate.Proofs.Store.Answers

/-!
# Evaluations that close no cycle

An assignment `Closes` a cycle if the object is reachable from the value that becomes its member. An
evaluation that fails before it makes such an assignment keeps a store founded
(`Evaluator.assigning_founds`); up to that assignment the one that makes it does the same. So no
object is reachable from its own slots before an assignment has closed a cycle
(`Eval.Performs.acyclic`), and each question that goes through values has an answer
(`Store.Acyclic.answers`).
-/

namespace ChatTemplate

/-- The object is reachable from the value that is assigned to its member. -/
def Assignment.Closes (st : Store) (a : Assignment) : Prop :=
  a.object < st.objects.size ∧ st.Reaches a.value a.object

def Assigned.Closes (d : Assigned) : Prop := d.toAssignment.Closes d.before

/-- The evaluation of expressions and statements keeps a store founded. -/
structure Evaluator.Founds (ev : Evaluator) : Prop where
  expr : ∀ e scope n, Eval.Founds n Value.Below (ev.expr e scope)
  stmt : ∀ s scope n, Eval.Sustains n (ev.stmt s scope)

namespace Eval.Founds
open Contract (within_lenient)
variable {n : ℕ}

theorem expectName (place : String) (e : Expr) : Sustains n (Eval.expectName place e) := by
  cases e with
  | name w => exact .pure fun _ _ => trivial
  | _ => exact fail _

theorem binder (target : Target) : Sustains n (Eval.binder target) := by
  cases target with
  | name w => exact .pure fun _ _ => trivial
  | tuple items =>
    exact (each fun e _ _ _ => expectName _ e).bind fun _ _ _ _ => .pure fun _ _ => trivial

theorem param (a : Arg) : Sustains n (Eval.param a) := by
  unfold Eval.param
  split
  · exact .pure fun _ _ => trivial
  · exact .pure fun _ _ => trivial
  · exact fail _

theorem callerParam (a : Arg) : Sustains n (Eval.callerParam a) := by
  cases a with
  | positional e => exact expectName _ e
  | _ => exact fail _

theorem output (v : Value) : Sustains n (Eval.output v) := by
  unfold Eval.output
  split
  · exact .pure fun _ _ => trivial
  · exact .pure fun _ _ => trivial
  · exact (textOf v).bind fun _ _ _ _ => .pure fun _ _ => trivial

theorem loopItems {v : Value} (hv : v.Below n) :
    Founds n (fun k vs => ∀ w ∈ vs, w.Below k) (Eval.loopItems v) := by
  cases v with
  | array items =>
    exact .pure fun k hk w hw => Value.Below.mono (Value.among_array.mp hv w hw) hk
  | object r =>
    have hkeys : Sustains n (Eval.slotsOf r) :=
      of_meets (Respects.slotsOf r) fun _ => ((within_lenient Host.none).slotsOf r).meets
    refine hkeys.bind fun _ _ slots _ => .pure fun k _ w hw => ?_
    obtain ⟨name, -, rfl⟩ := List.mem_map.mp hw
    exact Value.among_string name
  | _ => exact fail _

theorem loopSlots {items : Array Value} (hitems : ∀ v ∈ items, v.Below n) (i : ℕ) :
    ∀ e ∈ Eval.loopSlots items i, e.2.Below n := by
  have hitem (j : ℕ) : ((items[j]?).getD .undefined).Below n :=
    holds_getD (fun w hw => hitems w (Array.mem_of_getElem? hw)) Value.among_undefined
  have hint (k : Int) : (Value.int k).Below n := Value.among_int k
  have hbool (b : Bool) : (Value.bool b).Below n := Value.among_bool b
  unfold Eval.loopSlots
  simp only [List.forall_mem_cons]
  refine ⟨hint _, hint _, hint _, hint _, hbool _, hbool _, hint _, ?_, hitem _, nofun⟩
  split
  · exact Value.among_undefined
  · exact hitem _

theorem failing {stop : Store → Assignment → Bool} (hstop : ∀ st a, a.Closes st → stop st a)
    (f : Fault) {r : ObjectRef} (name : Text) {v : Value} (hv : v.Below n) :
    Sustains n (Eval.failing stop f ⟨r, name, v⟩) := by
  intro st hst hn
  cases hclosed : stop st ⟨r, name, v⟩ with
  | true =>
    obtain ⟨hresult, hafter⟩ := failing_of_stop f hclosed
    rw [hafter]
    exact ⟨hst, le_rfl, fun _ _ => trivial⟩
  | false =>
    obtain ⟨hresult, hafter⟩ := failing_of_pass f hclosed
    have hopen : ¬ (r < st.objects.size ∧ st.Reaches v r) := fun h => by
      rw [hstop st ⟨r, name, v⟩ h] at hclosed
      cases hclosed
    have hput : (Eval.performed ⟨r, name, v⟩).after st = st.putSlot r name v := rfl
    rw [hafter, hput]
    refine ⟨hst.putSlot name (hv.mono hn) hopen, ?_, fun _ _ => trivial⟩
    rw [Store.objects_size_putSlot]

variable {ev : Evaluator} (hev : ev.Founds) (host : Host) (scope : Scope)

include hev

/-! ### Blocks -/

theorem block (before : Text) (body : List Stmt) :
    Sustains n (Eval.block ev scope before body) := by
  induction body generalizing before n with
  | nil => exact .pure fun _ _ => trivial
  | cons s ss ih =>
    unfold Eval.block
    refine (hev.stmt s scope n).bind fun _ _ flow _ => ?_
    cases flow with
    | text t => exact ih (before ++ t)
    | signal signal t => exact .pure fun _ _ => trivial

theorem closedBlock (body : List Stmt) : Sustains n (Eval.closedBlock ev scope body) := by
  unfold Eval.closedBlock
  refine (block hev scope "" body).bind fun _ _ flow _ => ?_
  cases flow with
  | text t => exact .pure fun _ _ => trivial
  | signal signal t => exact fail _

/-! ### Expressions -/

theorem args (as : List Arg) {given : Args} (hgiven : given.Below n) :
    Founds n Args.Below (Eval.args ev scope as given) := by
  induction as generalizing given n with
  | nil => exact .pure fun _ hk => hgiven.mono hk
  | cons a as ih =>
    unfold Eval.args
    cases a with
    | positional e =>
      refine (hev.expr e scope n).bind fun k hk v hv => ih ⟨?_, (hgiven.mono hk).keywords⟩
      exact List.forall_mem_append.mpr
        ⟨(hgiven.mono hk).positional, List.forall_mem_singleton.mpr hv⟩
    | keyword w e =>
      refine (hev.expr e scope n).bind fun k hk v hv => ih ⟨(hgiven.mono hk).positional, ?_⟩
      exact Slots.forall_put (hgiven.mono hk).keywords hv
    | spread e =>
      refine (hev.expr e scope n).bind fun k hk v hv => ?_
      cases v with
      | array items =>
        refine ih ⟨List.forall_mem_append.mpr ⟨(hgiven.mono hk).positional, ?_⟩, ?_⟩
        · exact Value.among_array.mp hv
        · exact (hgiven.mono hk).keywords
      | _ => exact fail _

theorem filterBy {v : Value} (hv : v.Below n) (f : Expr) :
    Founds n Value.Below (Eval.filterBy host ev scope v f) := by
  have happly {k : ℕ} {a : Args} (ha : a.Below k) (hvk : v.Below k) (name : Text) :
      Founds k Value.Below (Eval.applyFilter host scope a.keywords name a.positional v) :=
    of_gives (Adds.applyFilter host scope _ name _ v) fun k' hk' =>
      (within_lenient host).applyFilter scope name (ha.mono hk').allowed (hvk.mono hk')
  have hnone {k : ℕ} : Args.none.Below k := ⟨nofun, nofun⟩
  unfold Eval.filterBy
  cases f with
  | name w => exact happly hnone hv _
  | call callee as =>
    cases callee with
    | name w => exact (args hev scope as hnone).bind fun k hk a ha => happly ha (hv.mono hk) _
    | _ => exact fail _
  | _ => exact fail _

theorem entries {slots : Slots Text Value} (hslots : ∀ e ∈ slots, e.2.Below n)
    (es : List (Expr × Expr)) :
    Founds n (fun k slots => ∀ e ∈ slots, e.2.Below k) (Eval.entries ev scope slots es) := by
  induction es generalizing slots n with
  | nil => exact .pure fun _ hk e he => (hslots e he).mono hk
  | cons e es ih =>
    obtain ⟨k, e⟩ := e
    unfold Eval.entries
    refine (hev.expr k scope n).bind fun m hm v _ => ?_
    cases v with
    | string name =>
      refine (hev.expr e scope m).bind fun m' hm' w hw => ih (Slots.forall_put ?_ hw)
      exact fun e he => (hslots e he).mono (hm.trans hm')
    | _ => exact fail _

theorem bound (e : Option Expr) : Sustains n (Eval.bound ev scope e) := by
  cases e with
  | none => exact .pure fun _ _ => trivial
  | some e =>
    exact (hev.expr e scope n).bind fun _ _ v _ =>
      of_meets (Adds.sliceBound v) fun _ => (within_lenient Host.none).sliceBound v

theorem operation (left right : Expr) (op : String) :
    Founds n Value.Below (Eval.operation ev scope left op right) := by
  unfold Eval.operation
  refine (hev.expr left scope n).bind fun k hk v hv => ?_
  have kept {k' : ℕ} (hk' : k ≤ k') : Founds k' Value.Below (Pure.pure v) :=
    .pure fun _ hk'' => hv.mono (hk'.trans hk'')
  split
  · refine (truthy v).bind fun k' hk' b _ => ?_
    split
    · exact hev.expr right scope k'
    · exact kept hk'
  split
  · refine (truthy v).bind fun k' hk' b _ => ?_
    split
    · exact kept hk'
    · exact hev.expr right scope k'
  · refine (hev.expr right scope k).bind fun k' hk' w hw => ?_
    exact of_gives (Adds.binary op v w) fun k'' hk'' =>
      (within_lenient Host.none).binary op (hv.mono (hk'.trans hk'')) (hw.mono hk'')

/-! ### Calls -/

theorem bindParams {keywords : Slots String Value} (hkeywords : ∀ e ∈ keywords, e.2.Below n)
    (params : List Param) {positional : List Value} (hpositional : ∀ v ∈ positional, v.Below n) :
    Sustains n (Eval.bindParams ev scope keywords params positional) := by
  induction params generalizing positional n with
  | nil => exact .pure fun _ _ => trivial
  | cons p ps ih =>
    have bound {k : ℕ} (hk : n ≤ k) {v : Value} (hv : v.Below k) {rest : List Value}
        (hrest : ∀ v ∈ rest, v ∈ positional) : Sustains k (do
        Eval.bind scope p.name v
        Eval.bindParams ev scope keywords ps rest) :=
      (bindName scope p.name hv).bind fun k' hk' _ _ =>
        ih (fun e he => (hkeywords e he).mono (hk.trans hk')) fun v hv =>
          (hpositional v (hrest v hv)).mono (hk.trans hk')
    have htail : ∀ v ∈ positional.tail, v ∈ positional := fun v => List.mem_of_mem_tail
    unfold Eval.bindParams
    dsimp only
    split
    · exact bound le_rfl (hpositional _ List.mem_cons_self) htail
    · rename_i v _ hv
      exact bound le_rfl (hkeywords _ (mem_of_lookup hv)) htail
    · rename_i e _ _
      exact (hev.expr e scope n).bind fun k hk v hv => bound hk hv htail
    · exact fail_bind _

theorem callMacro (name : String) (params : List Param) (body : List Stmt) {a : Args}
    (ha : a.Below n) : Founds n Value.Below (Eval.callMacro ev name params body a scope) := by
  unfold Eval.callMacro
  refine (innerScope scope).bind fun k hk inner _ => ?_
  have ran : Founds k Value.Below (do
      Eval.bindParams ev inner a.keywords params a.positional
      return Value.string (← Eval.closedBlock ev inner body)) :=
    (bindParams hev inner (ha.mono hk).keywords params (ha.mono hk).positional).bind
      fun _ _ _ _ => (closedBlock hev inner body).bind fun _ _ t _ =>
        .pure fun _ _ => Value.among_string t
  dsimp only
  split
  · exact fail_bind _
  split
  · exact fail_bind _
  · exact ran

theorem callCaller (params : List String) (body : List Stmt) {a : Args} (ha : a.Below n) :
    Founds n Value.Below (Eval.callCaller ev params body scope a) := by
  unfold Eval.callCaller
  refine (innerScope scope).bind fun k hk inner _ => ?_
  refine (bindAll inner params (List.forall_mem_append.mpr ⟨?_, ?_⟩)).bind fun _ _ _ _ => ?_
  · exact (ha.mono hk).positional
  · intro v hv
    rw [List.eq_of_mem_replicate hv]
    exact Value.among_undefined
  · exact (closedBlock hev inner body).bind fun _ _ t _ => .pure fun _ _ => Value.among_string t

omit hev in
theorem callNamespace {a : Args} (ha : a.Below n) :
    Founds n Value.Below (Eval.callNamespace a) := by
  unfold Eval.callNamespace
  split
  · exact newObject (Args.Among.slots ha)
  · rename_i r hr
    split
    · refine .pure fun k hk => Value.Below.mono ?_ hk
      exact ha.positional _ (by rw [hr]; exact List.mem_singleton_self _)
    · exact fail _
  · exact fail _

theorem callFunction {f : Function} (hf : ∀ g, f ≠ .host g) {a : Args} (ha : a.Below n) :
    Founds n Value.Below (Eval.callFunction ev host f a scope) := by
  cases f with
  | range => exact of_gives (Adds.callRange a) fun _ _ => (within_lenient Host.none).callRange a
  | raiseException =>
    exact of_gives (Adds.callRaise a) fun _ hk => (within_lenient Host.none).callRaise (ha.mono hk).slots
  | newNamespace => exact callNamespace ha
  | stringMethod s m =>
    exact of_gives (Adds.callStringMethod s m a) fun k hk =>
      (within_lenient Host.none).callStringMethod (ha.mono hk).allowed s m
  | objectMethod r m =>
    exact of_gives (Adds.callObjectMethod r m a) fun k hk =>
      (within_lenient Host.none).callObjectMethod (ha.mono hk).allowed r m
  | defined name params body => exact callMacro hev scope name params body ha
  | caller params body home => exact callCaller hev home params body ha
  | host f => exact absurd rfl (hf f)

theorem callValue {v : Value} {a : Args} (ha : a.Below n) :
    Founds n Value.Below (Eval.callValue ev host v a scope) := by
  unfold Eval.callValue
  cases v with
  | function r =>
    exact get.bind fun k hk st hst =>
      callFunction hev host scope (hst.1.functions r) (ha.mono hk)
  | _ => exact fail _

theorem exprInner (e : Expr) : Founds n Value.Below (Eval.exprInner host ev e scope) := by
  have hexpr (e : Expr) (k : ℕ) := hev.expr e scope k
  have hkeep (k k' : ℕ) (v : Value) (hk : k ≤ k') (hv : v.Below k) : v.Below k' := hv.mono hk
  have hmember {k : ℕ} {v : Value} (hv : v.Below k) (w : Value) :
      Founds k Value.Below (Eval.lookupMember v w) :=
    of_gives (Adds.lookupMember v w) fun _ hk => (within_lenient Host.none).lookupMember (hv.mono hk) w
  unfold Eval.exprInner
  cases e with
  | name w => exact lookup scope w.text
  | int w =>
    dsimp only
    split
    · exact .pure fun _ _ => Value.among_int _
    · exact escape _
  | float w =>
    dsimp only
    split
    · exact .pure fun _ _ => Value.among_float _
    · exact escape _
  | string w => exact .pure fun _ _ => Value.among_string _
  | bool w => exact .pure fun _ _ => Value.among_bool _
  | null w => exact .pure fun _ _ => Value.among_null
  | array es =>
    refine (mapM hkeep fun e _ k _ => hexpr e k).bind fun k _ vs hvs => .pure fun k' hk' => ?_
    exact Value.among_array.mpr fun v hv => (hvs v hv).mono hk'
  | tuple es =>
    refine (mapM hkeep fun e _ k _ => hexpr e k).bind fun k _ vs hvs => .pure fun k' hk' => ?_
    exact Value.among_array.mpr fun v hv => (hvs v hv).mono hk'
  | object es =>
    have hnil : ∀ e ∈ ([] : Slots Text Value), e.2.Below n := nofun
    exact (entries hev scope hnil es).bind fun _ _ slots hslots => newObject hslots
  | binary l op r => exact operation hev scope l r op.text
  | unary op e =>
    refine (hexpr e n).bind fun _ _ v _ => ?_
    split
    · exact (truthy v).bind fun _ _ b _ => .pure fun _ _ => Value.among_bool _
    · exact fail _
  | member e w => exact (hexpr e n).bind fun _ _ v hv => hmember hv _
  | index e k =>
    exact (hexpr e n).bind fun m _ v hv => (hexpr k m).bind fun _ hm w _ => hmember (hv.mono hm) w
  | slice e a b c =>
    refine (hexpr e n).bind fun k _ v hv => (bound hev scope a).bind fun k₁ hk₁ start _ => ?_
    refine (bound hev scope b).bind fun k₂ hk₂ stop _ => ?_
    refine (bound hev scope c).bind fun k₃ hk₃ step _ => ?_
    have hk := hk₁.trans (hk₂.trans hk₃)
    exact of_gives (Adds.slice v start stop step) fun _ hk' =>
      (within_lenient Host.none).slice (hv.mono (hk.trans hk')) _ _ _
  | call f as =>
    have hnone : Args.none.Below n := ⟨nofun, nofun⟩
    refine (args hev scope as hnone).bind fun k _ a ha => (hexpr f k).bind fun k' hk' v _ => ?_
    exact callValue hev host scope (ha.mono hk')
  | filter e f => exact (hexpr e n).bind fun k _ v hv => filterBy hev host scope hv f
  | test e negated w =>
    refine (hexpr e n).bind fun _ _ v _ => ?_
    have hfind {k : ℕ} : Sustains k (Eval.findTest scope w.text) :=
      of_meets (Respects.findTest scope w.text) fun _ =>
        ((within_lenient host).findTest scope w.text).meets
    refine hfind.bind fun _ _ found _ => ?_
    have hrun {k : ℕ} : Sustains k (Eval.runTest host found.1 found.2 v []) :=
      of_meets (Adds.runTest host _ _ v []) fun _ =>
        (within_lenient host).runTest v [] (.inl ⟨trivial, fun _ _ => trivial⟩)
    exact hrun.bind fun _ _ b _ => .pure fun _ _ => Value.among_bool _
  | select e t =>
    refine (hexpr t n).bind fun _ _ v _ => (truthy v).bind fun k _ b _ => ?_
    split
    · exact hexpr e k
    · exact .pure fun _ _ => Value.among_undefined
  | ternary t y n =>
    refine (hexpr t _).bind fun _ _ v _ => (truthy v).bind fun k _ b _ => ?_
    split
    · exact hexpr y k
    · exact hexpr n k

/-! ### Statements -/

theorem assignWith {put : ObjectRef → Text → Value → Eval Unit}
    (hput : ∀ r name {k v}, Value.Below k v → Sustains k (put r name v)) (target : Expr) {v : Value}
    (hv : v.Below n) : Sustains n (Eval.assignWith put ev scope target v) := by
  unfold Eval.assignWith
  split
  · exact (binder _).bind fun _ hk b _ => bindTo scope b (hv.mono hk)
  split
  · exact fail _
  · exact fail _
  · refine (hev.expr _ scope n).bind fun _ hk o _ => ?_
    split
    · exact hput _ _ (hv.mono hk)
    · exact fail _
  · exact fail _

theorem passes (b : Binder) (test : Option Expr) {v : Value} (hv : v.Below n) :
    Sustains n (Eval.passes ev scope b test v) := by
  unfold Eval.passes
  cases test with
  | none => exact .pure fun _ _ => trivial
  | some e =>
    refine (innerScope scope).bind fun k hk inner _ => ?_
    refine (bindTo inner b (hv.mono hk)).bind fun k' _ _ _ => ?_
    exact (hev.expr e inner k').bind fun _ _ w _ => truthy w

theorem rounds (b : Binder) (body : List Stmt) {items : Array Value}
    (hitems : ∀ v ∈ items, v.Below n) (i : ℕ) (before : Text) {vs : List Value}
    (hvs : ∀ v ∈ vs, v.Below n) : Sustains n (Eval.rounds ev scope b body items i before vs) := by
  induction vs generalizing i before n with
  | nil => exact .pure fun _ _ => trivial
  | cons v vs ih =>
    obtain ⟨hv, hvs⟩ := List.forall_mem_cons.mp hvs
    unfold Eval.rounds
    refine (newObject (loopSlots hitems i)).bind fun k hk w hw => ?_
    refine (bindName scope _ hw).bind fun k₁ hk₁ _ _ => ?_
    refine (bindTo scope b (hv.mono (hk.trans hk₁))).bind fun k₂ hk₂ _ _ => ?_
    refine (block hev scope "" body).bind fun k₃ hk₃ flow _ => ?_
    have hle := hk.trans (hk₁.trans (hk₂.trans hk₃))
    have next (t : Text) : Sustains k₃ (Eval.rounds ev scope b body items (i + 1) t vs) :=
      ih (fun w hw => (hitems w hw).mono hle) _ _ fun w hw => (hvs w hw).mono hle
    cases flow with
    | text t => exact next _
    | signal signal t =>
      cases signal with
      | «break» => exact .pure fun _ _ => trivial
      | «continue» => exact next _

theorem loop (target : Target) (iterable : Expr) (body default : List Stmt) :
    Sustains n (Eval.loop ev scope target iterable body default) := by
  unfold Eval.loop
  refine (innerScope scope).bind fun k _ inner _ => (hev.expr _ inner k).bind fun k₁ _ v hv => ?_
  refine (loopItems hv).bind fun k₂ _ candidates hcandidates => ?_
  refine (binder target).bind fun k₃ hk₃ b _ => ?_
  have hlater {k : ℕ} (hk : k₃ ≤ k) : ∀ v ∈ candidates, v.Below k := fun v hv =>
    (hcandidates v hv).mono (hk₃.trans hk)
  refine (filterM fun v hv k hk => passes hev inner b _ (hlater hk v hv)).bind ?_
  intro k₄ hk₄ items hitems
  have hbelow : ∀ v ∈ items, v.Below k₄ := fun v hv => hlater hk₄ v (hitems v hv)
  split
  · exact block hev inner "" default
  · exact rounds hev inner b body (fun v hv => hbelow v (List.mem_toArray.mp hv)) _ _ hbelow

theorem callBlock (callee : Word) (as params : List Arg) (body : List Stmt) :
    Founds n Value.Below (Eval.callBlock host ev scope callee as params body) := by
  have hnone {k : ℕ} : Args.none.Below k := ⟨nofun, nofun⟩
  unfold Eval.callBlock
  refine (each fun a _ _ _ => callerParam a).bind fun _ _ names _ => ?_
  refine (args hev scope as hnone).bind fun k _ a ha => ?_
  refine (hev.expr _ scope k).bind fun k₁ hk₁ f _ => ?_
  refine (innerScope scope).bind fun k₂ hk₂ inner _ => ?_
  refine (newFunction (f := .caller names body scope) nofun).bind fun k₃ hk₃ w hw => ?_
  refine (bindName inner _ hw).bind fun k₄ hk₄ _ _ => ?_
  exact callValue hev host inner (ha.mono (hk₁.trans (hk₂.trans (hk₃.trans hk₄))))

theorem stmtWith {put : Assignment → Eval Unit}
    (hput : ∀ r name {k v}, Value.Below k v → Sustains k (put ⟨r, name, v⟩)) (s : Stmt) :
    Sustains n (Eval.stmtWith put host ev s scope) := by
  have done {k : ℕ} (flow : Flow) : Sustains k (Pure.pure flow) := .pure fun _ _ => trivial
  unfold Eval.stmtWith
  cases s with
  | assign target e =>
    exact (hev.expr e scope n).bind fun _ _ v hv =>
      (assignWith hev scope hput target hv).bind fun _ _ _ _ => done _
  | capture target body =>
    exact (closedBlock hev scope body).bind fun _ _ t _ =>
      (assignWith hev scope hput target (Value.among_string t)).bind fun _ _ _ _ => done _
  | comment w => exact done _
  | text w => exact done _
  | output e => exact (hev.expr e scope n).bind fun _ _ v _ => output v
  | choice test body alternate =>
    exact (hev.expr test scope n).bind fun _ _ v _ => (truthy v).bind fun _ _ b _ =>
      block hev scope "" _
  | loop target iterable body default => exact loop hev scope target iterable body default
  | defineMacro name params body =>
    refine (each fun a _ _ _ => param a).bind fun _ _ ps _ => ?_
    refine (newFunction (f := .defined name.text ps body) nofun).bind fun _ _ v hv => ?_
    exact (bindName scope _ hv).bind fun _ _ _ _ => done _
  | callBlock callee as params body =>
    exact (callBlock hev host scope callee as _ body).bind fun _ _ v _ => output v
  | filterBlock f body =>
    refine (closedBlock hev scope body).bind fun _ _ t _ => ?_
    exact (filterBy hev host scope (Value.among_string t) f).bind fun _ _ v _ => output v
  | control signal w => exact done _

end Eval.Founds

/-- A template that fails before it closes a cycle keeps a store founded. -/
theorem Evaluator.assigning_founds {stop : Store → Assignment → Bool}
    (hstop : ∀ st a, a.Closes st → stop st a) (f : Fault) (host : Host) (depth : ℕ) :
    (assigning (Eval.failing stop f) host depth).Founds := by
  induction depth with
  | zero => exact ⟨fun _ _ _ => .throw _, fun _ _ _ => .throw _⟩
  | succ depth ih =>
    refine ⟨fun e scope n => .rethrow e.pos? (.exprInner ih host scope e), fun s scope n => ?_⟩
    exact .rethrow s.pos? (.stmtWith ih host scope (fun r name {_ _} => .failing hstop f name) s)

/-! ### Questions that have an answer -/

/-- Every value can be spelled out, printed, handed to the host and, but for functions and
indentations out of range, written as JSON. Any two values can be compared, and any value looked for
in a list. -/
structure Store.Answers (st : Store) : Prop where
  datum : ∀ v, ∃ d, (Eval.datum v).result st = .ok d
  text : ∀ v, ∃ t, (Eval.textOf v).result st = .ok t
  host : ∀ v, ∃ h, (Eval.toHost v).result st = .ok h
  json : ∀ v indent, (Eval.toJson v indent).result st ≠ .error .endless
  equal : ∀ v w, ∃ b, (Eval.equal v w).result st = .ok b
  holds : ∀ vs v, ∃ b, (Eval.finite (·.holds? vs v)).result st = .ok b

/-- Whatever spells the value out does not end. -/
structure Store.Endless (st : Store) (v : Value) : Prop where
  text : (Eval.textOf v).result st = .error .endless
  host : (Eval.toHost v).result st = .error .endless
  json : ∀ indent, (Eval.toJson v indent).result st = .error .endless

/-- Once the value is spelled out, writing it as JSON ends. -/
theorem Eval.toJson_ends {st : Store} {v : Value} {d : Datum} (h : (datum v).result st = .ok d)
    (indent : Option Int) : (toJson v indent).result st ≠ .error .endless := by
  rw [toJson, result_bind_ok h]
  by_cases hfun : d.hasFunction
  · rw [if_pos hfun]
    exact nofun
  rw [if_neg hfun, Datum.json?, if_neg hfun]
  cases indent with
  | none => exact nofun
  | some n =>
    unfold expectWidth
    dsimp only
    split
    · split
      · exact nofun
      · exact nofun
    · exact nofun

theorem Store.Acyclic.answers {st : Store} (hac : st.Acyclic) : st.Answers := by
  have hdatum (v : Value) : ∃ d, (Eval.datum v).result st = .ok d := by
    obtain ⟨d, hd⟩ := Option.isSome_iff_exists.mp (hac.datum?_isSome v)
    exact ⟨d, Eval.result_finite_of_some hd⟩
  refine ⟨hdatum, fun v => ?_, fun v => ?_, fun v indent => ?_, fun v w => ?_, fun vs v => ?_⟩
  · obtain ⟨d, hd⟩ := hdatum v
    exact ⟨d.text, Eval.result_bind_ok hd⟩
  · obtain ⟨d, hd⟩ := hdatum v
    exact ⟨d.toHost, Eval.result_bind_ok hd⟩
  · obtain ⟨d, hd⟩ := hdatum v
    exact Eval.toJson_ends hd indent
  · obtain ⟨b, hb⟩ := Option.isSome_iff_exists.mp (hac.equal?_isSome v w)
    exact ⟨b, Eval.result_finite_of_some hb⟩
  · obtain ⟨b, hb⟩ := Option.isSome_iff_exists.mp (hac.holds?_isSome vs v)
    exact ⟨b, Eval.result_finite_of_some hb⟩

theorem Store.endless_of_datum?_eq_none {st : Store} {v : Value} (h : st.datum? v = none) :
    st.Endless v := by
  have hdatum : (Eval.datum v).result st = .error .endless := Eval.result_finite_of_none h
  refine ⟨?_, ?_, fun indent => ?_⟩
  · rw [Eval.textOf, Eval.result_bind, hdatum]
  · rw [Eval.toHost, Eval.result_bind, hdatum]
  · rw [Eval.toJson, Eval.result_bind, hdatum]

/-! ### The assignments of a run -/

namespace Eval
variable {α : Type} {m : (Assignment → Eval Unit) → Eval α} {st : Store} {done : List Assigned}

/-- From the store `st`, these are the assignments that are made, one after the other: a run that
fails at the first of some of them does the same up to there. -/
structure Performs (m : (Assignment → Eval Unit) → Eval α) (st : Store) (done : List Assigned) :
    Prop where
  changes : st.Changes done ((m performed).after st)
  stops : ∀ (stop : Store → Assignment → Bool) (f : Fault), (∀ pos, f.locate pos = f) →
    Stops f (m performed) (m (failing stop f)) st
      (done.find? fun d => stop d.before d.toAssignment)

/-- A run that fails before it closes a cycle keeps a store of `n` objects founded. -/
def Careful (n : ℕ) (m : (Assignment → Eval Unit) → Eval α) : Prop :=
  ∀ (stop : Store → Assignment → Bool) (f : Fault), (∀ st a, a.Closes st → stop st a) →
    Sustains n (m (failing stop f))

theorem Careful.founded (hm : Careful st.objects.size m) (hst : st.Founded)
    {stop : Store → Assignment → Bool} (hstop : ∀ s a, a.Closes s → stop s a) :
    ((m (failing stop .endless)).after st).Founded :=
  (hm stop .endless hstop st hst le_rfl).1

/-- From the store `st`, certain assignments are made. As long as none of their objects is reachable
from the value that is assigned, no object is reachable from its own slots, and all questions are
answered. The first assignment of the other sort makes its object reachable from itself, and no text
of it ends. -/
def CyclesByAssignment (m : (Assignment → Eval Unit) → Eval α) (st : Store) : Prop :=
  ∃ done : List Assigned, Performs m st done ∧
    (∀ (pre post : List Assigned) (mid : Store), done = pre ++ post →
      mid.Changes post ((m performed).after st) → (∀ d ∈ pre, ¬ d.Closes) →
      mid.Acyclic ∧ mid.Answers) ∧
    ∀ pre d post, done = pre ++ d :: post → (∀ x ∈ pre, ¬ x.Closes) →
      (d.Closes ↔ ∃ e ∈ d.after.slots d.object, d.after.Reaches e.2 d.object) ∧
      (d.Closes → d.after.Endless (.object d.object))

namespace Performs
variable (h : Performs m st done) (hm : Careful st.objects.size m) (hst : st.Founded)
include h hm hst

/-- Where an assignment is made, the store is founded if no cycle has been closed before. -/
theorem founded_before {pre post : List Assigned} {d : Assigned} (hdone : done = pre ++ d :: post)
    (hpre : ∀ x ∈ pre, ¬ x.Closes) : d.before.Founded := by
  classical
  -- the run that stops there, or where it would close a cycle
  let stop (s : Store) (a : Assignment) : Bool :=
    decide (a.Closes s ∨ (s = d.before ∧ a = d.toAssignment))
  have hstop : ∀ s a, a.Closes s → stop s a := fun s a hclosed => decide_eq_true (.inl hclosed)
  obtain ⟨x, hx, hbefore⟩ : ∃ x, done.find? (fun x => stop x.before x.toAssignment) = some x ∧
      x.before = d.before := by
    have hd : stop d.before d.toAssignment := decide_eq_true (.inr ⟨rfl, rfl⟩)
    have hfound : (d :: post).find? (fun x => stop x.before x.toAssignment) = some d := by
      rw [List.find?_cons, hd]
    rw [hdone, List.find?_append, hfound]
    cases hx : pre.find? fun x => stop x.before x.toAssignment with
    | none => exact ⟨d, rfl, rfl⟩
    | some x =>
      refine ⟨x, rfl, ?_⟩
      have hstopped := List.find?_some hx
      exact ((of_decide_eq_true hstopped).resolve_left (hpre x (List.mem_of_find?_eq_some hx))).1
  obtain ⟨-, hafter⟩ : _ ∧ _ := hx ▸ h.stops stop .endless fun _ => rfl
  rw [← hbefore, ← hafter]
  exact hm.founded hst hstop

/-- The store that is left is founded if no cycle has been closed. -/
theorem founded_after (hopen : ∀ d ∈ done, ¬ d.Closes) : ((m performed).after st).Founded := by
  classical
  let stop (s : Store) (a : Assignment) : Bool := decide (a.Closes s)
  have hstop : ∀ s a, a.Closes s → stop s a := fun s a hclosed => decide_eq_true hclosed
  have hnone : done.find? (fun d => stop d.before d.toAssignment) = none :=
    List.find?_eq_none.mpr fun d hd hclosed => hopen d hd (of_decide_eq_true hclosed)
  obtain ⟨-, hafter⟩ : _ ∧ _ := hnone ▸ h.stops stop .endless fun _ => rfl
  rw [← hafter]
  exact hm.founded hst hstop

/-- No object is reachable from its own slots at a point of the run up to which no cycle has been
closed. -/
theorem acyclic {pre post : List Assigned} {mid : Store} (hdone : done = pre ++ post)
    (hmid : mid.Changes post ((m performed).after st)) (hpre : ∀ d ∈ pre, ¬ d.Closes) :
    mid.Acyclic := by
  cases hmid with
  | none hkeeps =>
    rw [List.append_nil] at hdone
    exact hkeeps.acyclic (h.founded_after hm hst (hdone ▸ hpre)).acyclic
  | assign hkeeps _ => exact hkeeps.acyclic (h.founded_before hm hst hdone hpre).acyclic

/-- The assignment that closes a cycle makes its object reachable from its own slots. -/
theorem closes_iff {pre post : List Assigned} {d : Assigned} (hdone : done = pre ++ d :: post)
    (hpre : ∀ x ∈ pre, ¬ x.Closes) :
    d.Closes ↔ ∃ e ∈ d.after.slots d.object, d.after.Reaches e.2 d.object := by
  have hac := (h.founded_before hm hst hdone hpre).acyclic
  constructor
  · rintro ⟨hlt, hreaches⟩
    exact Store.exists_reaches_putSlot hlt hreaches
  · rintro ⟨e, he, hreaches⟩
    by_contra hopen
    exact (Store.acyclic_putSlot_iff hac).mpr hopen d.object e he hreaches

end Performs

theorem Assigns.cyclesByAssignment (h : Assigns m) (hm : Careful st.objects.size m)
    (hst : st.Founded) : CyclesByAssignment m st := by
  obtain ⟨done, hchanges, hstops⟩ := h st
  have hdone : Performs m st done := ⟨hchanges, hstops⟩
  refine ⟨done, hdone, fun pre post mid heq hmid hpre => ?_, fun pre d post heq hpre => ?_⟩
  · have hac := hdone.acyclic hm hst heq hmid hpre
    exact ⟨hac, hac.answers⟩
  · have hcloses := hdone.closes_iff hm hst heq hpre
    refine ⟨hcloses, fun hclosed => ?_⟩
    obtain ⟨e, he, hreaches⟩ := hcloses.mp hclosed
    exact Store.endless_of_datum?_eq_none (Store.datum?_eq_none he hreaches)

end Eval
end ChatTemplate
