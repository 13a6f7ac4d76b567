import ChatTemplate.Proofs.Eval.Assignments
import ChatTemplate.Proofs.Eval.Together
import ChatTemplate.Proofs.Eval.View

/-!
# Call blocks that are at home elsewhere

A run only reads the frames that were there before it: it binds names in frames of its own. So all
that matters of the older ones is which values are found from the scopes in which call blocks were
written. Two runs of one part of a template, from stores that differ in these scopes only, stay
together where the same values are found from them (`Outlook`): what the one answers, the other does
(`Eval.Rehoused.callCaller`). The first run is given no more depth than the second one, and where it
lacks depth nothing is said.
-/

namespace ChatTemplate
variable {α β : Type} {old : Bool → Store}

/-! ### Scopes that see the same -/

/-- Chains of frames in two runs that begin in the stores `old`: first frames that are as new to the
one as to the other, then older ones in which the same values are found. -/
inductive SameChains (old : Bool → Store) : (Bool → List FrameRef) → Prop
  | older {chain : Bool → List FrameRef} (hlt : ∀ i, ∀ r ∈ chain i, r < (old i).frames.size)
      (hsame : ∀ n, (old false).lookup? (chain false) n = (old true).lookup? (chain true) n) :
      SameChains old chain
  | newer (k : Nat) {chain : Bool → List FrameRef} (h : SameChains old chain) :
      SameChains old fun i => ((old i).frames.size + k) :: chain i

/-- A scope for each of two runs; the same values are found from both. -/
structure Outlook (old : Bool → Store) where
  scope : Bool → Scope
  chains : SameChains old fun i => (scope i).chain

namespace Outlook

/-- The innermost frame is one of the runs' own. -/
def Own (o : Outlook old) : Prop := ∃ k, ∀ i, (o.scope i).inner = (old i).frames.size + k

/-- The scopes inside these whose frames are the new ones of number `k`. -/
def inside (o : Outlook old) (k : Nat) : Outlook old where
  scope i := ⟨(old i).frames.size + k, (o.scope i).chain⟩
  chains := .newer k o.chains

theorem own_inside (o : Outlook old) (k : Nat) : (o.inside k).Own := ⟨k, fun _ => rfl⟩

end Outlook

/-- The functions differ in the scopes in which call blocks are at home, and no further than that
the same values are found from them. -/
inductive Function.Rehoused (old : Bool → Store) : (Bool → Function) → Prop
  | same {f : Function} (h : ∀ params body home, f ≠ .caller params body home) :
    Rehoused old fun _ => f
  | caller (params : List String) (body : List Stmt) (home : Outlook old) :
    Rehoused old fun i => .caller params body (home.scope i)

theorem Function.Rehoused.name_eq {f : Bool → Function} (h : Rehoused old f) :
    (f false).name = (f true).name := by
  cases h <;> rfl

/-! ### Stores -/

theorem Store.lookup?_congr {st st' : Store} {chain : List FrameRef}
    (h : ∀ r ∈ chain, st.frame r = st'.frame r) (n : String) :
    st.lookup? chain n = st'.lookup? chain n := by
  induction chain with
  | nil => rfl
  | cons r chain ih =>
    obtain ⟨hr, hrest⟩ := List.forall_mem_cons.mp h
    simp only [lookup?, List.findSome?_cons, hr]
    cases (st'.frame r).vars.lookup n with
    | none => exact ih hrest
    | some v => rfl

/-- What the stores of two runs that began in `old` have in common: the older frames are as they
were, and the new ones are the same in both. -/
structure Store.Rehoused (old st : Bool → Store) : Prop extends
    Store.Companions (Function.Rehoused old) st where
  frames_size : ∃ n, ∀ i, (st i).frames.size = (old i).frames.size + n
  older : ∀ i, ∀ r < (old i).frames.size, (st i).frame r = (old i).frame r
  newer : ∀ k, (st false).frame ((old false).frames.size + k) =
    (st true).frame ((old true).frames.size + k)
  tests : ∀ k, ((st false).frame ((old false).frames.size + k)).tests = []

namespace Store.Rehoused
variable {st : Bool → Store} (h : Store.Rehoused old st)
include h

theorem sameObjects : (st false).SameObjects (st true) :=
  h.toCompanions.sameObjects fun _ => Function.Rehoused.name_eq

theorem lookup?_eq {chain : Bool → List FrameRef} (hchain : SameChains old chain) (n : String) :
    (st false).lookup? (chain false) n = (st true).lookup? (chain true) n := by
  induction hchain with
  | @older chain hlt hsame =>
    have hold (i : Bool) : (st i).lookup? (chain i) n = (old i).lookup? (chain i) n :=
      lookup?_congr (fun r hr => h.older i r (hlt i r hr)) n
    rw [hold, hold, hsame]
  | newer k _ ih =>
    simp only [lookup?, List.findSome?_cons, h.newer k]
    cases ((st true).frame ((old true).frames.size + k)).vars.lookup n with
    | none => exact ih
    | some v => rfl

theorem lookup_eq (o : Outlook old) (n : String) :
    (st false).lookup (o.scope false) n = (st true).lookup (o.scope true) n :=
  congrArg (·.getD Value.undefined) (h.lookup?_eq o.chains n)

theorem tests_eq {o : Outlook old} (ho : o.Own) (i : Bool) :
    ((st i).frame (o.scope i).inner).tests = [] := by
  obtain ⟨k, hk⟩ := ho
  rw [hk]
  cases i with
  | false => exact h.tests k
  | true => exact h.newer k ▸ h.tests k

/-! ### Steps -/

/-- A step that leaves frames alone. -/
theorem of_frames {st' : Bool → Store} (hst' : Store.Companions (Function.Rehoused old) st')
    (hframes : ∀ i, (st' i).frames = (st i).frames) : Store.Rehoused old st' := by
  have hframe (i : Bool) : (st' i).frame = (st i).frame := by
    funext r
    rw [frame, frame, hframes]
  refine ⟨hst', ?_, ?_, ?_, ?_⟩
  · simpa only [hframes] using h.frames_size
  · simpa only [hframe] using h.older
  · simpa only [hframe] using h.newer
  · simpa only [hframe] using h.tests

theorem pushObject (slots : Slots Text Value) :
    Store.Rehoused old fun i => (st i).pushObject slots :=
  h.of_frames (h.toCompanions.pushObject slots) fun _ => rfl

theorem putSlot (r : ObjectRef) (name : Text) (v : Value) :
    Store.Rehoused old fun i => (st i).putSlot r name v :=
  h.of_frames (h.toCompanions.putSlot r name v) fun _ => rfl

theorem pushFunction {f : Bool → Function} (hf : Function.Rehoused old f) :
    Store.Rehoused old fun i => (st i).pushFunction (f i) :=
  h.of_frames (h.toCompanions.pushFunction hf) fun _ => rfl

/-- The new frames of two runs that have made equally many have the same numbers as new frames. -/
theorem pushFrame (vars : Slots String Value) :
    Store.Rehoused old fun i => (st i).pushFrame vars := by
  obtain ⟨n, hn⟩ := h.frames_size
  refine ⟨h.of_same (fun _ => rfl) (fun _ => rfl), ⟨n + 1, fun i => ?_⟩, fun i r hr => ?_,
    fun k => ?_, fun k => ?_⟩
  · simp [Store.pushFrame, hn i, Nat.add_assoc]
  · have hne : r ≠ (st i).frames.size := by have := hn i; omega
    rw [Alike.frame_pushFrame, if_neg hne, h.older i r hr]
  · simp only [Alike.frame_pushFrame, hn, Nat.add_left_cancel_iff, h.newer k]
  · rw [Alike.frame_pushFrame]
    split
    · rfl
    · exact h.tests k

theorem bind {o : Outlook old} (ho : o.Own) (name : String) (v : Value) :
    Store.Rehoused old fun i => (st i).bind (o.scope i).inner name v := by
  obtain ⟨k, hk⟩ := ho
  obtain ⟨n, hn⟩ := h.frames_size
  simp only [hk]
  refine ⟨h.of_same (fun _ => rfl) (fun _ => rfl), ⟨n, fun i => ?_⟩, fun i r hr => ?_,
    fun k' => ?_, fun k' => ?_⟩
  · simp [Store.bind, hn i]
  · have hne : (old i).frames.size + k ≠ r := by omega
    rw [Alike.frame_bind, if_neg fun hr => hne hr.1, h.older i r hr]
  · simp only [Alike.frame_bind, hn, Nat.add_left_cancel_iff, Nat.add_lt_add_iff_left, h.newer k']
  · rw [Alike.frame_bind]
    split <;> exact h.tests k'

end Store.Rehoused

/-! ### Evaluations -/

namespace Eval

/-- From such stores the first evaluation lacks depth, or both answer the same. -/
abbrev Rehoused (old : Bool → Store) (m : Bool → Eval α) : Prop :=
  Together (Store.Rehoused old) id m

namespace Rehoused
variable {host : Host}

theorem rethrow {m : Bool → Eval α} (hm : Rehoused old m) (pos : Option Pos) :
    Rehoused old fun i => tryCatch (m i) fun f => MonadExcept.throw (f.locate pos) :=
  Together.rethrow (fun _ _ h => congrArg (Fault.locate pos) h) hm

theorem newFunction {f : Bool → Function} (hf : Function.Rehoused old f) :
    Rehoused old fun i => Eval.newFunction (f i) :=
  .modifyGet (fun _ hst => congrArg Value.function hst.functions_size)
    fun _ hst => hst.pushFunction hf

theorem newPlain {f : Function} (h : ∀ params body home, f ≠ .caller params body home) :
    Rehoused old fun _ => Eval.newFunction f :=
  newFunction (.same h)

theorem innerScope (o : Outlook old) {f : Bool → Scope → Eval β}
    (hf : ∀ inner : Outlook old, inner.Own → Rehoused old fun i => f i (inner.scope i)) :
    Rehoused old fun i => Eval.innerScope (o.scope i) >>= f i := by
  intro st h
  obtain ⟨n, hn⟩ := h.frames_size
  have hrun := hf (o.inside n) (o.own_inside n) _ (h.pushFrame [])
  have hscope (i : Bool) : (o.inside n).scope i = ⟨(st i).frames.size, (o.scope i).chain⟩ := by
    rw [hn i]
    rfl
  simp only [hscope] at hrun
  exact hrun

def logic (host : Host) (old : Bool → Store) : StoreLogic host Bool where
  World := Unit
  Later _ _ := True
  Holds _ := Rehoused old
  Place := Outlook old
  scopeOf := Outlook.scope
  Sees _ _ := True
  Finds _ := Outlook.Own
  Owns _ := Outlook.Own
  Knows t := ∃ test, t = .builtin test
  sees _ := trivial
  finds := id
  later _ := id
  pure := .pure
  throw _ := .throw _
  hostFails _ _ := .throw _
  bind := .bind
  datum v := .finite fun _ hst => hst.sameObjects.datum?_eq v
  equal v w := .finite fun _ hst => hst.sameObjects.equal?_eq v w
  holds? vs v := .finite fun _ hst => hst.sameObjects.holds?_eq vs v
  truthy v := .ask fun _ hst => hst.sameObjects.truthy_eq v
  slotsOf r := .ask fun _ hst => hst.sameObjects.slots_eq r
  lookup o name := .ask fun _ hst => hst.lookup_eq o name
  newObject slots := .modifyGet (fun _ hst => by rw [hst.objects]) fun _ hst => hst.pushObject slots
  stringMethod s m := newPlain nofun
  objectMethod r m := newPlain nofun
  hostFunction f := newPlain nofun
  innerScope _ h := innerScope _ fun inner => h () inner trivial
  bindName name v ho := .modifyGet (fun _ _ => rfl) fun _ hst => hst.bind ho name v
  findTest name := fun ho hf => .findTest name (fun _ hst => hst.tests_eq ho) hf
  hostTest name key v args h := nomatch h

/-! ### Evaluators -/

section
variable {ev : Bool → Evaluator} (hev : (logic host old).Covers ev)
  (hstmt : (logic host old).CoversStmts ev)
include hev hstmt

theorem callFunction {f : Bool → Function} (hf : Function.Rehoused old f) (a : Args)
    (o : Outlook old) :
    (logic host old).Holds () fun i => Eval.callFunction (ev i) host (f i) a (o.scope i) := by
  have hbody (body : List Stmt) (ω : Unit) (inner : Outlook old)
      (hinner : (logic host old).Owns ω inner) :=
    Logic.Holds.block hstmt hinner "" body
  cases hf with
  | caller params body home =>
    have hhome : (logic host old).Sees () home := trivial
    exact Logic.Holds.callCaller params (hbody body) hhome a
  | same hne =>
    have hscope : (logic host old).Sees () o := trivial
    exact Logic.Holds.callFunction hev hstmt
      (fun params body home h => absurd h (hne params body home)) a hscope

theorem callValue : (logic host old).CoversCalls ev := by
  intro _ v a o _
  cases v with
  | function r =>
    intro st h
    exact callFunction hev hstmt (h.functions r) a o st h
  | _ => exact Logic.Holds.fail _

end

/-- The first of the evaluators has no more depth than the second. -/
theorem within (host : Host) (old : Bool → Store) {n m : Nat} (h : n ≤ m) :
    (logic host old).Covers (fun i => Evaluator.within host (if i then m else n)) ∧
      (logic host old).CoversStmts fun i => Evaluator.within host (if i then m else n) := by
  -- on the depth of the first: without any it answers nothing, whatever the second one has
  induction n generalizing m with
  | zero => exact ⟨fun _ _ _ _ _ _ => .inl rfl, fun _ _ _ _ _ _ => .inl rfl⟩
  | succ n ih =>
    obtain ⟨m, rfl⟩ := Nat.exists_eq_succ_of_ne_zero (Nat.ne_of_gt (Nat.zero_lt_of_lt h))
    obtain ⟨hexpr, hstmt⟩ := ih (Nat.le_of_succ_le_succ h)
    have hcall := callValue hexpr hstmt
    have hstep (i : Bool) : Evaluator.within host (if i then m + 1 else n + 1) =
        ⟨Eval.expr host (Evaluator.within host (if i then m else n)),
          Eval.stmt host (Evaluator.within host (if i then m else n))⟩ := by
      cases i <;> rfl
    have hput (a : Assignment) : (logic host old).Holds () fun _ => performed a :=
      Together.modifyGet (fun _ _ => rfl) fun _ hst => hst.putSlot a.object a.name a.value
    simp only [hstep]
    refine ⟨fun _ e o ho => ?_, fun _ s o ho => ?_⟩
    · have hrun : Rehoused old fun i =>
          exprInner host (Evaluator.within host (if i then m else n)) e (o.scope i) :=
        Logic.Holds.exprInner hexpr ho hcall e
      exact hrun.rethrow e.pos?
    · have hrun : Rehoused old fun i =>
          stmtWith performed host (Evaluator.within host (if i then m else n)) s (o.scope i) :=
        Logic.Holds.stmtWith hexpr hcall hstmt hput (fun _ _ _ => newPlain nofun)
          (fun _ names body home _ => newFunction (.caller names body home)) ho s
      simp only [stmtWith_performed] at hrun
      exact hrun.rethrow s.pos?

/-- A call block prints the same wherever it is at home, as long as the same values are found from
there. -/
theorem callCaller (host : Host) {n m : Nat} (h : n ≤ m) (params : List String) (body : List Stmt)
    (home : Outlook old) (a : Args) : Rehoused old fun i =>
      Eval.callCaller (Evaluator.within host (if i then m else n)) params body (home.scope i) a := by
  have hbody (ω : Unit) (inner : Outlook old) (hinner : (logic host old).Owns ω inner) :=
    Logic.Holds.block (within host old h).2 hinner "" body
  have hhome : (logic host old).Sees () home := trivial
  have hrun : (logic host old).Holds () fun i =>
      Eval.callCaller (Evaluator.within host (if i then m else n)) params body (home.scope i) a :=
    Logic.Holds.callCaller params hbody hhome a
  exact hrun

end Rehoused
end Eval
end ChatTemplate
