import ChatTemplate.Proofs.Eval.Assignments
import ChatTemplate.Proofs.Eval.Scopes
import ChatTemplate.Proofs.Store.Basic

/-!
# Where call blocks are at home

A call block keeps the scope in which it stands as its home, and no frame is ever given up. So the
homes of the call blocks in a store are frames of that store (`Store.Homed`), and this stays so
whatever is evaluated in a scope of such frames (`Eval.keeps_homed`).
-/

namespace ChatTemplate

/-- The frames in which a call block was written. -/
def Function.homeChain : Function → List FrameRef
  | .caller _ _ home => home.chain
  | _ => []

theorem Function.homeChain_of_isMethod {f : Function} (h : f.isMethod) : f.homeChain = [] := by
  cases f with
  | stringMethod s m => rfl
  | objectMethod r m => rfl
  | _ => cases h

/-- All frames of the scope are among the first `n`. -/
def Scope.Below (n : Nat) (s : Scope) : Prop := ∀ k ∈ s.chain, k < n

/-- Call blocks were written in frames that are there. -/
def Store.Homed (st : Store) : Prop := ∀ r, ∀ k ∈ (st.function r).homeChain, k < st.frames.size

namespace Store
variable {st st' : Store}

theorem initial_homed : initial.Homed := by
  intro r k hk
  match r with
  | 0 | 1 | 2 => cases hk
  | r + 3 => cases hk

theorem lt_size_of_homeChain {r : FunctionRef} {k : FrameRef}
    (h : k ∈ (st.function r).homeChain) : r < st.functions.size := by
  refine Nat.lt_of_not_le fun hr => ?_
  rw [function_of_size_le hr] at h
  exact List.not_mem_nil h

namespace Homed

theorem of_functions (h : st.Homed) (hfunctions : st'.functions = st.functions)
    (hframes : st.frames.size ≤ st'.frames.size) : st'.Homed := by
  intro r k hk
  rw [function, hfunctions] at hk
  exact Nat.lt_of_lt_of_le (h r k hk) hframes

theorem pushFunction (h : st.Homed) {f : Function} (hf : ∀ k ∈ f.homeChain, k < st.frames.size) :
    (st.pushFunction f).Homed := by
  intro r k hk
  rw [function, Store.pushFunction, Array.getElem?_push] at hk
  split at hk
  · exact hf k hk
  · exact h r k hk

end Homed
end Store

/-- What is true of a homed store with `n` frames at least; anything may fail. -/
def Contract.homed (n : Nat) : Contract where
  store st := st.Homed ∧ n ≤ st.frames.size
  fault _ := True

namespace Contract
variable {n : Nat}

theorem homed_scoped : (homed n).Scoped where
  pushFrame st vars h := by
    have hsize : st.frames.size ≤ (st.pushFrame vars).frames.size := by simp [Store.pushFrame]
    exact ⟨h.1.of_functions rfl hsize, Nat.le_trans h.2 hsize⟩
  bind st r name v h := by
    have hsize : st.frames.size ≤ (st.bind r name v).frames.size := by simp [Store.bind]
    exact ⟨h.1.of_functions rfl hsize, Nat.le_trans h.2 hsize⟩

theorem homed_pushFunction {st : Store} {f : Function} (h : (homed n).store st)
    (hf : ∀ k ∈ f.homeChain, k < n) : (homed n).store (st.pushFunction f) :=
  ⟨h.1.pushFunction fun k hk => Nat.lt_of_lt_of_le (hf k hk) h.2, h.2⟩

theorem homed_open (host : Host) : (homed n).Open host where
  allowed := ⟨trivial, fun _ _ => trivial⟩
  pushHost _ _ h := homed_pushFunction h nofun

theorem homed_lenient (host : Host) : (homed n).Lenient host where
  toClosed := .of_forall fun _ => trivial
  distinct _ _ _ := trivial
  pushObject _ _ _ h := ⟨h.1.of_functions rfl (Nat.le_refl _), h.2⟩
  pushMethod _ _ hf h := homed_pushFunction h (by rw [Function.homeChain_of_isMethod hf]; nofun)
  ordinary _ _ := trivial
  known _ _ := trivial
  endless := trivial
  tests := .inl (homed_open host).allowed

end Contract

namespace Eval.Homed
open Contract (homed_lenient homed_open homed_pushFunction homed_scoped)
variable {n : Nat} {α β : Type}

theorem newFunction {f : Function} (hf : ∀ k ∈ f.homeChain, k < n) :
    Meets (.homed n) (Eval.newFunction f) :=
  .modifyGet fun _ hst => ⟨trivial, homed_pushFunction hst hf⟩

/-- Once there is a new frame, there is one more. -/
theorem newScope {outer : List FrameRef} (houter : ∀ k ∈ outer, k < n)
    (vars : Slots String Value) {f : Scope → Eval β}
    (hf : ∀ n' inner, n ≤ n' → inner.Below n' → Meets (.homed n') (f inner)) :
    Meets (.homed n) ((MonadStateOf.modifyGet fun st : Store =>
      ((⟨st.frames.size, outer⟩ : Scope), st.pushFrame vars)) >>= f) := by
  intro st hst
  have hpush : (Contract.homed (st.frames.size + 1)).store (st.pushFrame vars) :=
    ⟨(homed_scoped.pushFrame st vars hst).1, by simp [Store.pushFrame]⟩
  have hinner : Scope.Below (st.frames.size + 1) ⟨st.frames.size, outer⟩ :=
    List.forall_mem_cons.mpr ⟨Nat.lt_succ_self _, fun k hk =>
      Nat.lt_succ_of_lt (Nat.lt_of_lt_of_le (houter k hk) hst.2)⟩
  have hle : n ≤ st.frames.size + 1 := Nat.le_succ_of_le hst.2
  obtain ⟨⟨hhomed, hsize⟩, hresult⟩ := hf _ _ hle hinner _ hpush
  exact ⟨⟨hhomed, Nat.le_trans hle hsize⟩, hresult⟩

/-- The frames that there are for sure are all that matters of the store. -/
def logic (host : Host) : StoreLogic host Unit where
  World := Nat
  Later := (· ≤ ·)
  Holds n m := Meets (.homed n) (m ())
  Place := Scope
  scopeOf scope _ := scope
  Sees := Scope.Below
  Finds _ _ := True
  Owns := Scope.Below
  Knows _ := True
  sees := id
  finds _ := trivial
  later h hscope k hk := Nat.lt_of_lt_of_le (hscope k hk) h
  pure _ := .pure trivial
  throw _ := .throw trivial
  hostFails _ _ := .throw trivial
  bind hm hf := hm.bind hf
  datum := (homed_lenient host).datum
  equal := (homed_lenient host).equal
  holds? _ _ := (homed_lenient host).finite _
  truthy := .truthy
  slotsOf r := ((homed_lenient host).slotsOf r).meets
  lookup _ _ := Returns.get.bind fun _ _ => .pure trivial
  newObject _ := (homed_lenient host).newObject trivial
  stringMethod _ _ := newFunction nofun
  objectMethod _ _ := newFunction nofun
  hostFunction _ := newFunction nofun
  innerScope hscope hf := newScope hscope [] hf
  bindName name v _ := homed_scoped.bindName _ name v
  findTest name := fun _ hf =>
    ((homed_lenient host).findTest _ name).bind fun found _ => hf found trivial
  hostTest _ _ v args _ := (homed_lenient host).runTest v args (.inl (homed_open host).allowed)

section
variable {host : Host} {ev : Unit → Evaluator} (hev : (logic host).Covers ev)
  (hstmt : (logic host).CoversStmts ev)
include hev hstmt

theorem callFunction {f : Function} (hf : ∀ k ∈ f.homeChain, k < n) (a : Args) {scope : Scope}
    (hscope : scope.Below n) :
    (logic host).Holds n fun i => Eval.callFunction (ev i) host f a scope := by
  have hsees : (logic host).Sees n scope := hscope
  refine Logic.Holds.callFunction hev hstmt (fun _ _ home hcaller => ?_) a hsees
  rw [hcaller] at hf
  exact ⟨home, hf, fun _ => rfl⟩

theorem callValue : (logic host).CoversCalls ev := by
  intro n v a scope hscope
  cases v with
  | function r =>
    intro st hst
    -- the home of the function is known of the frames of this store, of which there may be more
    have hbelow : scope.Below st.frames.size := fun k hk => Nat.lt_of_lt_of_le (hscope k hk) hst.2
    obtain ⟨⟨hhomed, hsize⟩, hresult⟩ :=
      callFunction hev hstmt (hst.1 r) a hbelow st ⟨hst.1, Nat.le_refl _⟩
    exact ⟨⟨hhomed, Nat.le_trans hst.2 hsize⟩, hresult⟩
  | _ => exact Logic.Holds.fail _

end

theorem within (host : Host) (depth : Nat) :
    (logic host).Covers (fun _ => Evaluator.within host depth) ∧
      (logic host).CoversStmts fun _ => Evaluator.within host depth := by
  induction depth with
  | zero => exact ⟨fun _ _ _ _ => (logic host).throw Fault.raw_endless,
      fun _ _ _ _ => (logic host).throw Fault.raw_endless⟩
  | succ depth ih =>
    obtain ⟨hexpr, hstmt⟩ := ih
    have hcall := callValue hexpr hstmt
    refine ⟨fun n e scope hscope => ?_, fun n s scope hscope => ?_⟩
    · have hrun : (logic host).Holds n fun _ =>
          exprInner host (Evaluator.within host depth) e scope :=
        Logic.Holds.exprInner hexpr hscope hcall e
      exact Returns.rethrow hrun fun _ _ => trivial
    · have hput (a : Assignment) : (logic host).Holds n fun _ => performed a :=
        Returns.modify fun _ hst => ⟨hst.1.of_functions rfl (Nat.le_refl _), hst.2⟩
      have hrun : (logic host).Holds n fun _ =>
          stmtWith performed host (Evaluator.within host depth) s scope :=
        Logic.Holds.stmtWith hexpr hcall hstmt hput (fun _ _ _ => newFunction nofun)
          (fun _ _ _ _ hhome => newFunction hhome) hscope s
      rw [stmtWith_performed] at hrun
      exact Returns.rethrow hrun fun _ _ => trivial

theorem render (host : Host) (depth : Nat) (t : Template)
    (vars keywords : List (String × HostValue)) :
    Meets (.homed n) (t.render host depth vars keywords) := by
  have declared (n : Nat) (s : Scope) (vars : List (String × HostValue)) :
      Meets (.homed n) (Template.declareAll s vars) :=
    (homed_lenient host).declareAll homed_scoped (fun _ => trivial) s (.inl (homed_open host))
  simp only [Template.render, Template.scope, bind_assoc, pure_bind]
  have houtermost : ∀ k ∈ ([] : List FrameRef), k < n := nofun
  refine newScope houtermost Store.globalVars fun n₁ globals _ hglobals => ?_
  refine (declared n₁ globals _).bind fun _ => newScope hglobals [] fun n₂ inner _ hinner => ?_
  refine (declared n₂ inner _).bind fun _ => ?_
  have hblock := Logic.Holds.block (within host depth).2 hinner "" t.program
  exact hblock.closedBlock

end Eval.Homed

/-- No evaluation makes a call block whose home is not there. -/
theorem Eval.keeps_homed (host : Host) (depth : Nat) {st : Store} (h : st.Homed) :
    (∀ (t : Template) vars keywords, ((t.render host depth vars keywords).after st).Homed) ∧
      ∀ {scope}, scope.Below st.frames.size →
        (∀ e, (((Evaluator.within host depth).expr e scope).after st).Homed) ∧
        (∀ s, (((Evaluator.within host depth).stmt s scope).after st).Homed) ∧
        ∀ v a, ((callValue (Evaluator.within host depth) host v a scope).after st).Homed := by
  obtain ⟨hexpr, hstmt⟩ := Eval.Homed.within host depth
  have hst : (Contract.homed st.frames.size).store st := ⟨h, Nat.le_refl _⟩
  refine ⟨fun t vars keywords => (Eval.Homed.render host depth t vars keywords st hst).1.1,
    fun hscope => ⟨fun e => ?_, fun s => ?_, fun v a => ?_⟩⟩
  · exact (hexpr e ⟨hscope, trivial⟩ st hst).1.1
  · exact (hstmt s hscope st hst).1.1
  · exact (Eval.Homed.callValue hexpr hstmt v a hscope st hst).1.1

end ChatTemplate
