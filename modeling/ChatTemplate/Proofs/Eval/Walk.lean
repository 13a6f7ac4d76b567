import ChatTemplate.Eval.Stmt
import ChatTemplate.Proofs.Eval.StoreLogic

/-!
# Logics of the parts of a template

Where a logic holds of nested expressions (`Eval.StoreLogic.Covers`) and of calls, it holds of every
expression. For the parts of statements there is one lemma each; they ask the logic to
hold of the blocks inside, which need not be the same for all members of a family.
-/

namespace ChatTemplate

namespace Eval

/-- Assigns a value to names, or does with the member of an object what `put` says. -/
def assignWith (put : ObjectRef → Text → Value → Eval Unit) (ev : Evaluator) (scope : Scope)
    (target : Expr) (v : Value) : Eval Unit := do
  match target.target? with
  | some t => bindTo scope (← binder t) v
  | none =>
    match target with
    | .index .. | .slice .. => fail .computedTarget
    | .member e w =>
      match ← ev.expr e scope with
      | .object r => put r w.text v
      | o => fail (.targetNotObject o.kind)
    | e => fail (.badTarget e.label)

theorem assign_eq_assignWith (ev : Evaluator) : assign ev =
    assignWith (fun r name v => modify fun st => st.putSlot r name v) ev := rfl

end Eval

namespace Eval.StoreLogic
variable {host : Host} {ι : Type} (L : StoreLogic host ι) (ev : ι → Evaluator)

/-- The places at which expressions are evaluated. -/
def Admits (ω : L.World) (scope : L.Place) : Prop := L.Sees ω scope ∧ L.Finds ω scope

/-- The logic holds of the evaluation of expressions. -/
def Covers : Prop :=
  ∀ ⦃ω : L.World⦄ (e : Expr) ⦃scope : L.Place⦄, L.Admits ω scope →
    L.Holds ω fun i => (ev i).expr e (L.scopeOf scope i)

/-- The logic holds of calls. -/
def CoversCalls : Prop :=
  ∀ ⦃ω : L.World⦄ (v : Value) (a : Args) ⦃scope : L.Place⦄, L.Sees ω scope →
    L.Holds ω fun i => Eval.callValue (ev i) host v a (L.scopeOf scope i)

/-- The logic holds of running statements. -/
def CoversStmts : Prop :=
  ∀ ⦃ω : L.World⦄ (s : Stmt) ⦃scope : L.Place⦄, L.Owns ω scope →
    L.Holds ω fun i => (ev i).stmt s (L.scopeOf scope i)

variable {L} in
theorem Owns.admits {ω : L.World} {scope : L.Place} (h : L.Owns ω scope) : L.Admits ω scope :=
  ⟨L.sees h, L.finds h⟩

end Eval.StoreLogic

namespace Eval.Logic.Holds
variable {host : Host} {ι : Type} {L : StoreLogic host ι} {ω : L.World}
  {ev : ι → Evaluator} {scope : L.Place}

/-! ### Binding names -/

theorem bindName (hscope : L.Owns ω scope) (name : String) (v : Value) :
    L.Holds ω fun i => Eval.bind (L.scopeOf scope i) name v :=
  L.bindName name v hscope

theorem bindAll (hscope : L.Owns ω scope) (names : List String) (items : List Value) :
    L.Holds ω fun i => Eval.bindAll (L.scopeOf scope i) names items :=
  forM (fun (name, v) => bindName hscope name v) (names.zip items)

theorem bindTo (hscope : L.Owns ω scope) (b : Binder) (v : Value) :
    L.Holds ω fun i => Eval.bindTo (L.scopeOf scope i) b v := by
  cases b with
  | one name => exact bindName hscope name v
  | many names =>
    cases v with
    | array items =>
      dsimp only [Eval.bindTo]
      split
      · exact .fail _
      split
      · exact .fail _
      · exact bindAll hscope names items
    | _ => exact .fail _

theorem expectName (place : String) (e : Expr) : L.Holds ω fun _ => Eval.expectName place e := by
  cases e with
  | name w => exact .pure _
  | _ => exact .fail _

theorem binder (target : Target) : L.Holds ω fun _ => Eval.binder target := by
  cases target with
  | name w => exact .pure _
  | tuple items => exact (mapM (expectName "unpacking") items).bind fun names => .pure _

/-! ### Blocks -/

theorem block (hev : L.CoversStmts ev) (hscope : L.Owns ω scope) (before : Text)
    (body : List Stmt) :
    L.Holds ω fun i => Eval.block (ev i) (L.scopeOf scope i) before body := by
  induction body generalizing before with
  | nil => exact .pure (Flow.text before)
  | cons s ss ih =>
    unfold Eval.block
    refine (hev s hscope).bind fun flow => ?_
    cases flow with
    | text t => exact ih (before ++ t)
    | signal signal t => exact .pure (Flow.signal signal (before ++ t))

theorem closedBlock {body : ι → List Stmt}
    (hbody : L.Holds ω fun i => Eval.block (ev i) (L.scopeOf scope i) "" (body i)) :
    L.Holds ω fun i => Eval.closedBlock (ev i) (L.scopeOf scope i) (body i) := by
  unfold Eval.closedBlock
  refine hbody.bind fun flow => ?_
  cases flow with
  | text t => exact .pure t
  | signal signal t => exact .fail (.signalOutsideLoop signal)

/-! ### Expressions -/

section
variable (hev : L.Covers ev) (hscope : L.Admits ω scope)
include hev hscope

theorem args (as : List Arg) (given : Args) :
    L.Holds ω fun i => Eval.args (ev i) (L.scopeOf scope i) as given := by
  induction as generalizing given with
  | nil => exact .pure given
  | cons a as ih =>
    unfold Eval.args
    cases a with
    | positional e => exact (hev e hscope).bind fun v => ih _
    | keyword w e => exact (hev e hscope).bind fun v => ih _
    | spread e =>
      refine (hev e hscope).bind fun v => ?_
      cases v with
      | array items => exact ih _
      | _ => exact .fail _

theorem filterBy (v : Value) (f : Expr) :
    L.Holds ω fun i => Eval.filterBy host (ev i) (L.scopeOf scope i) v f := by
  unfold Eval.filterBy
  cases f with
  | name w => exact applyFilter hscope.2 _ _ _ v
  | call callee as =>
    cases callee with
    | name w => exact (args hev hscope as _).bind fun a => applyFilter hscope.2 _ _ _ v
    | _ => exact .fail _
  | _ => exact .fail _

theorem entries (slots : Slots Text Value) (es : List (Expr × Expr)) :
    L.Holds ω fun i => Eval.entries (ev i) (L.scopeOf scope i) slots es := by
  induction es generalizing slots with
  | nil => exact .pure slots
  | cons e es ih =>
    obtain ⟨k, e⟩ := e
    unfold Eval.entries
    refine (hev k hscope).bind fun v => ?_
    cases v with
    | string name => exact (hev e hscope).bind fun w => ih _
    | _ => exact .fail _

theorem bound (e : Option Expr) : L.Holds ω fun i => Eval.bound (ev i) (L.scopeOf scope i) e := by
  cases e with
  | none => exact .pure none
  | some e => exact (hev e hscope).bind fun v => sliceBound v

theorem operation (left right : Expr) (op : String) :
    L.Holds ω fun i => Eval.operation (ev i) (L.scopeOf scope i) left op right := by
  unfold Eval.operation
  refine (hev left hscope).bind fun v => ?_
  split
  · refine (truthy v).bind fun b => ?_
    split
    · exact hev right hscope
    · exact .pure v
  split
  · refine (truthy v).bind fun b => ?_
    split
    · exact .pure v
    · exact hev right hscope
  · exact (hev right hscope).bind fun w => binary op v w

theorem exprInner (hcall : L.CoversCalls ev) (e : Expr) :
    L.Holds ω fun i => Eval.exprInner host (ev i) e (L.scopeOf scope i) := by
  have hexpr (e : Expr) := hev e hscope
  unfold Eval.exprInner
  cases e with
  | name w => exact L.lookup scope w.text
  | int w =>
    dsimp only
    split
    · exact .pure _
    · exact .escape _
  | float w =>
    dsimp only
    split
    · exact .pure _
    · exact .escape _
  | string w => exact .pure _
  | bool w => exact .pure _
  | null w => exact .pure _
  | array es => exact (mapM hexpr es).bind fun vs => .pure _
  | tuple es => exact (mapM hexpr es).bind fun vs => .pure _
  | object es => exact (entries hev hscope [] es).bind fun slots => newObject slots
  | binary l op r => exact operation hev hscope l r op.text
  | unary op e =>
    refine (hexpr e).bind fun v => ?_
    split
    · exact (truthy v).bind fun b => .pure _
    · exact .fail _
  | member e w => exact (hexpr e).bind fun v => lookupMember v _
  | index e k => exact (hexpr e).bind fun v => (hexpr k).bind fun w => lookupMember v w
  | slice e a b c =>
    refine (hexpr e).bind fun v => (bound hev hscope a).bind fun start => ?_
    refine (bound hev hscope b).bind fun stop => (bound hev hscope c).bind fun step => ?_
    exact slice v start stop step
  | call f as =>
    refine (args hev hscope as Args.none).bind fun a => (hexpr f).bind fun v => ?_
    exact hcall v a hscope.1
  | filter e f => exact (hexpr e).bind fun v => filterBy hev hscope v f
  | test e negated w =>
    refine (hexpr e).bind fun v => findTest hscope.2 w.text fun found ht => ?_
    exact (runTest _ ht v []).bind fun b => .pure _
  | select e t =>
    refine (hexpr t).bind fun v => (truthy v).bind fun b => ?_
    split
    · exact hexpr e
    · exact .pure _
  | ternary t y n =>
    refine (hexpr t).bind fun v => (truthy v).bind fun b => ?_
    split
    · exact hexpr y
    · exact hexpr n

end

/-! ### Calls -/

theorem bindParams (hev : L.Covers ev) (hscope : L.Owns ω scope) (keywords : Slots String Value)
    (params : List Param) (positional : List Value) :
    L.Holds ω fun i => Eval.bindParams (ev i) (L.scopeOf scope i) keywords params positional := by
  induction params generalizing positional with
  | nil => exact .pure ()
  | cons p ps ih =>
    have bound (v : Value) (rest : List Value) : L.Holds ω fun i => (do
        Eval.bind (L.scopeOf scope i) p.name v
        Eval.bindParams (ev i) (L.scopeOf scope i) keywords ps rest) :=
      (bindName hscope p.name v).bind fun _ => ih rest
    unfold Eval.bindParams
    dsimp only
    split
    · exact bound _ _
    · exact bound _ _
    · rename_i e _ _
      exact (hev e hscope.admits).bind fun v => bound v _
    · exact .fail_bind _

theorem callMacro (hev : L.Covers ev) (name : String) (params : List Param) {body : ι → List Stmt}
    (hbody : ∀ ω inner, L.Owns ω inner →
      L.Holds ω fun i => Eval.block (ev i) (L.scopeOf inner i) "" (body i))
    (a : Args) (hscope : L.Sees ω scope) :
    L.Holds ω fun i => Eval.callMacro (ev i) name params (body i) a (L.scopeOf scope i) := by
  unfold Eval.callMacro
  refine L.innerScope hscope fun ω' inner _ hinner => ?_
  have ran : L.Holds ω' fun i => (do
      Eval.bindParams (ev i) (L.scopeOf inner i) a.keywords params a.positional
      return Value.string (← Eval.closedBlock (ev i) (L.scopeOf inner i) (body i))) :=
    (bindParams hev hinner a.keywords params a.positional).bind fun _ =>
      (closedBlock (hbody ω' inner hinner)).bind fun t => .pure (Value.string t)
  dsimp only
  split
  · exact .fail_bind _
  split
  · exact .fail_bind _
  · exact ran

theorem callCaller (params : List String) {body : ι → List Stmt}
    (hbody : ∀ ω inner, L.Owns ω inner →
      L.Holds ω fun i => Eval.block (ev i) (L.scopeOf inner i) "" (body i))
    {home : L.Place} (hhome : L.Sees ω home) (a : Args) :
    L.Holds ω fun i => Eval.callCaller (ev i) params (body i) (L.scopeOf home i) a := by
  unfold Eval.callCaller
  refine L.innerScope hhome fun ω' inner _ hinner => (bindAll hinner _ _).bind fun _ => ?_
  exact (closedBlock (hbody ω' inner hinner)).bind fun t => .pure (Value.string t)

/-- A function that is the same to all members of a family does what its kind does; the home of a
call block must be a place of the logic. -/
theorem callFunction (hev : L.Covers ev) (hstmt : L.CoversStmts ev) {f : Function}
    (hhome : ∀ params body home, f = .caller params body home →
      ∃ place, L.Sees ω place ∧ ∀ i, L.scopeOf place i = home)
    (a : Args) (hscope : L.Sees ω scope) :
    L.Holds ω fun i => Eval.callFunction (ev i) host f a (L.scopeOf scope i) := by
  have hbody (body : List Stmt) (ω' : L.World) (inner : L.Place) (hinner : L.Owns ω' inner) :=
    block hstmt hinner "" body
  cases f with
  | range => exact callRange a
  | raiseException => exact callRaise a
  | newNamespace => exact callNamespace a
  | stringMethod s m => exact callStringMethod s m a
  | objectMethod r m => exact callObjectMethod r m a
  | defined name params body => exact callMacro hev name params (hbody body) a hscope
  | caller params body home =>
    obtain ⟨place, hplace, hsame⟩ := hhome params body home rfl
    have hrun := callCaller params (hbody body) hplace a
    simp only [hsame] at hrun
    exact hrun
  | host f => exact callHost f a

/-! ### Statements -/

theorem output (v : Value) : L.Holds ω fun _ => Eval.output v := by
  unfold Eval.output
  split
  · exact .pure _
  · exact .pure _
  · exact (textOf v).bind fun t => .pure (Flow.text t)

theorem param (a : Arg) : L.Holds ω fun _ => Eval.param a := by
  unfold Eval.param
  split
  · exact .pure _
  · exact .pure _
  · exact .fail _

theorem callerParam (a : Arg) : L.Holds ω fun _ => Eval.callerParam a := by
  cases a with
  | positional e => exact expectName _ e
  | _ => exact .fail _

theorem loopItems (v : Value) : L.Holds ω fun _ => Eval.loopItems v := by
  cases v with
  | array items => exact .pure _
  | object r => exact (slotsOf r).bind fun slots => .pure _
  | _ => exact .fail _

theorem rounds (hscope : L.Owns ω scope) (b : Binder) {body : ι → List Stmt}
    (hbody : L.Holds ω fun i => Eval.block (ev i) (L.scopeOf scope i) "" (body i))
    (items : Array Value) (n : Nat) (before : Text) (vs : List Value) :
    L.Holds ω fun i => Eval.rounds (ev i) (L.scopeOf scope i) b (body i) items n before vs := by
  induction vs generalizing n before with
  | nil => exact .pure (Flow.text before)
  | cons v vs ih =>
    unfold Eval.rounds
    refine (newObject _).bind fun w => (bindName hscope _ w).bind fun _ => ?_
    refine (bindTo hscope b v).bind fun _ => hbody.bind fun flow => ?_
    cases flow with
    | text t => exact ih _ _
    | signal signal t =>
      cases signal with
      | «break» => exact .pure (Flow.text (before ++ t))
      | «continue» => exact ih _ _

section
variable (hev : L.Covers ev)
include hev

theorem passes (hscope : L.Sees ω scope) (b : Binder) (test : Option Expr) (v : Value) :
    L.Holds ω fun i => Eval.passes (ev i) (L.scopeOf scope i) b test v := by
  unfold Eval.passes
  cases test with
  | none => exact .pure true
  | some e =>
    refine L.innerScope hscope fun ω' inner _ hinner => (bindTo hinner b v).bind fun _ => ?_
    exact (hev e hinner.admits).bind fun w => truthy w

theorem loop (target : Target) (iterable : Expr) {body default : ι → List Stmt}
    (hbody : ∀ ω inner, L.Owns ω inner →
      L.Holds ω fun i => Eval.block (ev i) (L.scopeOf inner i) "" (body i))
    (hdefault : ∀ ω inner, L.Owns ω inner →
      L.Holds ω fun i => Eval.block (ev i) (L.scopeOf inner i) "" (default i))
    (hscope : L.Sees ω scope) :
    L.Holds ω fun i =>
      Eval.loop (ev i) (L.scopeOf scope i) target iterable (body i) (default i) := by
  unfold Eval.loop
  refine L.innerScope hscope fun ω' inner _ hinner => ?_
  refine (hev _ hinner.admits).bind fun v => ?_
  refine (loopItems v).bind fun candidates => (binder target).bind fun b => ?_
  refine (filterM (fun v => passes hev (L.sees hinner) b _ v) candidates).bind fun items => ?_
  split
  · exact hdefault ω' inner hinner
  · exact rounds hinner b (hbody ω' inner hinner) _ _ _ _

theorem assignWith (hscope : L.Owns ω scope) {put : ι → ObjectRef → Text → Value → Eval Unit}
    (hput : ∀ r name v, L.Holds ω fun i => put i r name v) (target : Expr) (v : Value) :
    L.Holds ω fun i => Eval.assignWith (put i) (ev i) (L.scopeOf scope i) target v := by
  unfold Eval.assignWith
  split
  · exact (binder _).bind fun b => bindTo hscope b v
  · split
    · exact .fail _
    · exact .fail _
    · refine (hev _ hscope.admits).bind fun o => ?_
      split
      · exact hput _ _ _
      · exact .fail _
    · exact .fail _

theorem callBlock (hcall : L.CoversCalls ev) (hscope : L.Admits ω scope) (callee : Word)
    (as params : List Arg) {body : ι → List Stmt}
    (hnew : ∀ ω' names, L.Later ω ω' → L.Holds ω' fun i =>
      Eval.newFunction (.caller names (body i) (L.scopeOf scope i))) :
    L.Holds ω fun i =>
      Eval.callBlock host (ev i) (L.scopeOf scope i) callee as params (body i) := by
  unfold Eval.callBlock
  refine (mapM callerParam params).bind fun names => (args hev hscope as _).bind fun a => ?_
  refine (hev _ hscope).bind fun f => L.innerScope hscope.1 fun ω' inner hlater hinner => ?_
  refine (hnew ω' names hlater).bind fun w => (bindName hinner _ w).bind fun _ => ?_
  exact hcall f a (L.sees hinner)

end

end Eval.Logic.Holds
end ChatTemplate
