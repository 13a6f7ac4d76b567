import ChatTemplate.Proofs.Eval.Together
import ChatTemplate.Proofs.Eval.View
import ChatTemplate.Proofs.Eval.Walk
import ChatTemplate.Proofs.Grammar.StmtShed

/-!
# Runs of programs that differ in comments

Two programs are twins where the one differs from the other in comments only, wherever in it these
stand (`Stmt.Twins`). Their runs stay together: the stores hold the same frames and objects, and
functions that are twins again (`Store.Twins`). That makes a logic (`Eval.Twins.logic`), which holds
of statements by cases on how twins are built. A comment counts as something that nests, and twins
need not nest equally deep; so the first run is given a smaller depth than the second, and where it
fails for lack of depth nothing is said. What is not the same is the place of an error: that of a
statement is the place of its first word, which may be in a comment.
-/

namespace ChatTemplate

variable {α β : Type}

/-! ### Twin statements -/

/-- The lists differ in comments among statements that are related. -/
inductive Stmt.ListTwins (R : (Bool → Stmt) → Prop) : (Bool → List Stmt) → Prop
  | nil : ListTwins R fun _ => []
  | cons {s : Bool → Stmt} {ss : Bool → List Stmt} (hs : R s) (hss : ListTwins R ss) :
    ListTwins R fun i => s i :: ss i
  | comment (here : Bool → Bool) (w : Word) {ss : Bool → List Stmt} (hss : ListTwins R ss) :
    ListTwins R fun i => if here i then .comment w :: ss i else ss i

/-- The statements differ in the comments in their bodies. -/
inductive Stmt.Twins : (Bool → Stmt) → Prop
  | text (w : Word) : Twins fun _ => .text w
  | output (e : Expr) : Twins fun _ => .output e
  | choice (t : Expr) {body alternate : Bool → List Stmt} (hbody : ListTwins Twins body)
      (halternate : ListTwins Twins alternate) :
    Twins fun i => .choice t (body i) (alternate i)
  | loop (target : Target) (e : Expr) {body default : Bool → List Stmt}
      (hbody : ListTwins Twins body) (hdefault : ListTwins Twins default) :
    Twins fun i => .loop target e (body i) (default i)
  | assign (target e : Expr) : Twins fun _ => .assign target e
  | capture (target : Expr) {body : Bool → List Stmt} (hbody : ListTwins Twins body) :
    Twins fun i => .capture target (body i)
  | defineMacro (w : Word) (params : List Arg) {body : Bool → List Stmt}
      (hbody : ListTwins Twins body) :
    Twins fun i => .defineMacro w params (body i)
  | callBlock (w : Word) (args : List Arg) (params : Option (List Arg)) {body : Bool → List Stmt}
      (hbody : ListTwins Twins body) :
    Twins fun i => .callBlock w args params (body i)
  | filterBlock (f : Expr) {body : Bool → List Stmt} (hbody : ListTwins Twins body) :
    Twins fun i => .filterBlock f (body i)
  | control (signal : LoopSignal) (w : Word) : Twins fun _ => .control signal w

abbrev Program.Twins (p : Bool → Program) : Prop := Stmt.ListTwins Stmt.Twins p

/-- The statement, without the comments in its bodies if so wanted. -/
def Stmt.bareIf (b : Bool) (s : Stmt) : Stmt := if b then s.bare else s

def Program.bareIf (b : Bool) (p : Program) : Program := if b then p.bare else p

namespace Stmt
variable (b : Bool)

theorem bareIf_choice (t : Expr) (body alternate : List Stmt) :
    (choice t body alternate).bareIf b =
      .choice t (Program.bareIf b body) (Program.bareIf b alternate) := by
  cases b <;> rfl

theorem bareIf_loop (target : Target) (e : Expr) (body default : List Stmt) :
    (loop target e body default).bareIf b =
      .loop target e (Program.bareIf b body) (Program.bareIf b default) := by
  cases b <;> rfl

theorem bareIf_capture (target : Expr) (body : List Stmt) :
    (capture target body).bareIf b = .capture target (Program.bareIf b body) := by
  cases b <;> rfl

theorem bareIf_defineMacro (w : Word) (params : List Arg) (body : List Stmt) :
    (defineMacro w params body).bareIf b = .defineMacro w params (Program.bareIf b body) := by
  cases b <;> rfl

theorem bareIf_callBlock (w : Word) (args : List Arg) (params : Option (List Arg))
    (body : List Stmt) : (callBlock w args params body).bareIf b =
      .callBlock w args params (Program.bareIf b body) := by
  cases b <;> rfl

theorem bareIf_filterBlock (f : Expr) (body : List Stmt) :
    (filterBlock f body).bareIf b = .filterBlock f (Program.bareIf b body) := by
  cases b <;> rfl

theorem exists_comment {s : Stmt} (h : s.isComment) : ∃ w, s = .comment w := by
  cases s with
  | comment w => exact ⟨w, rfl⟩
  | _ => cases h

/-- A statement without a body. -/
theorem bareIf_of_bare {s : Stmt} (h : s.bare = s) : s.bareIf b = s := by
  cases b with
  | false => rfl
  | true => exact h

end Stmt

namespace Program
variable (b : Bool)

theorem bareIf_nil : bareIf b [] = [] := by
  cases b <;> rfl

theorem bareIf_comment (w : Word) (p : Program) :
    bareIf b (.comment w :: p) = if !b then .comment w :: bareIf b p else bareIf b p := by
  cases b <;> rfl

theorem bareIf_cons {s : Stmt} (h : s.isComment = false) (p : Program) :
    bareIf b (s :: p) = s.bareIf b :: bareIf b p := by
  cases b with
  | false => rfl
  | true => exact Stmt.bareList_cons h p

end Program

mutual

/-- Whichever of them are without their comments, a statement is the twin of itself. -/
theorem Stmt.twins_bareIf (here : Bool → Bool) :
    (s : Stmt) → s.isComment = false → Stmt.Twins fun i => s.bareIf (here i)
  | .text w, _ => by
    have hbare : (Stmt.text w).bare = .text w := rfl
    simp only [Stmt.bareIf_of_bare _ hbare]
    exact .text w
  | .output e, _ => by
    have hbare : (Stmt.output e).bare = .output e := rfl
    simp only [Stmt.bareIf_of_bare _ hbare]
    exact .output e
  | .choice t body alternate, _ => by
    simp only [Stmt.bareIf_choice]
    exact .choice t (Program.twins_bareIf here body) (Program.twins_bareIf here alternate)
  | .loop target e body default, _ => by
    simp only [Stmt.bareIf_loop]
    exact .loop target e (Program.twins_bareIf here body) (Program.twins_bareIf here default)
  | .assign target e, _ => by
    have hbare : (Stmt.assign target e).bare = .assign target e := rfl
    simp only [Stmt.bareIf_of_bare _ hbare]
    exact .assign target e
  | .capture target body, _ => by
    simp only [Stmt.bareIf_capture]
    exact .capture target (Program.twins_bareIf here body)
  | .defineMacro w params body, _ => by
    simp only [Stmt.bareIf_defineMacro]
    exact .defineMacro w params (Program.twins_bareIf here body)
  | .callBlock w args params body, _ => by
    simp only [Stmt.bareIf_callBlock]
    exact .callBlock w args params (Program.twins_bareIf here body)
  | .filterBlock f body, _ => by
    simp only [Stmt.bareIf_filterBlock]
    exact .filterBlock f (Program.twins_bareIf here body)
  | .control signal w, _ => by
    have hbare : (Stmt.control signal w).bare = .control signal w := rfl
    simp only [Stmt.bareIf_of_bare _ hbare]
    exact .control signal w

theorem Program.twins_bareIf (here : Bool → Bool) : (p : Program) →
    Program.Twins fun i => p.bareIf (here i)
  | [] => by
    simp only [Program.bareIf_nil]
    exact .nil
  | s :: ss => by
    cases hs : s.isComment with
    | false =>
      simp only [Program.bareIf_cons _ hs]
      exact .cons (Stmt.twins_bareIf here s hs) (Program.twins_bareIf here ss)
    | true =>
      obtain ⟨w, rfl⟩ := Stmt.exists_comment hs
      simp only [Program.bareIf_comment]
      exact .comment (fun i => !here i) w (Program.twins_bareIf here ss)

end

theorem Program.twins_refl (p : Program) : Program.Twins fun _ => p :=
  Program.twins_bareIf (fun _ => false) p

/-! ### Twin stores -/

/-- The functions differ in the comments in their bodies. -/
inductive Function.Twins : (Bool → Function) → Prop
  | range : Twins fun _ => .range
  | raiseException : Twins fun _ => .raiseException
  | newNamespace : Twins fun _ => .newNamespace
  | stringMethod (s : Text) (m : StringMethod) : Twins fun _ => .stringMethod s m
  | objectMethod (r : ObjectRef) (m : ObjectMethod) : Twins fun _ => .objectMethod r m
  | defined (name : String) (params : List Param) {body : Bool → List Stmt}
      (hbody : Program.Twins body) : Twins fun i => .defined name params (body i)
  | caller (params : List String) {body : Bool → List Stmt} (hbody : Program.Twins body)
      (home : Scope) : Twins fun i => .caller params (body i) home
  | host (f : HostFunction) : Twins fun _ => .host f

theorem Function.twins_refl (f : Function) : Twins fun _ => f := by
  cases f with
  | range => exact .range
  | raiseException => exact .raiseException
  | newNamespace => exact .newNamespace
  | stringMethod s m => exact .stringMethod s m
  | objectMethod r m => exact .objectMethod r m
  | defined name params body => exact .defined name params (Program.twins_refl body)
  | caller params body home => exact .caller params (Program.twins_refl body) home
  | host f => exact .host f

theorem Function.Twins.name_eq {f : Bool → Function} (h : Twins f) :
    (f false).name = (f true).name := by
  cases h <;> rfl

/-- The stores differ in the comments in functions only, and the frames from `base` on hold no
tests. -/
structure Store.Twins (base : FrameRef) (st : Bool → Store) : Prop extends
    Store.Companions Function.Twins st where
  frames : (st false).frames = (st true).frames
  base_le : base ≤ (st false).frames.size
  tests : ∀ r, base ≤ r → ((st false).frame r).tests = []

namespace Store

/-! ### Questions to twin stores -/

namespace Twins
variable {base : FrameRef} {st : Bool → Store} (h : Store.Twins base st)
include h

theorem sameObjects : (st false).SameObjects (st true) :=
  h.toCompanions.sameObjects fun _ => Function.Twins.name_eq

theorem frame_eq (r : FrameRef) : (st false).frame r = (st true).frame r := by
  rw [frame, frame, h.frames]

theorem lookup_eq (scope : Scope) (name : String) :
    (st false).lookup scope name = (st true).lookup scope name := by
  simp only [lookup, lookup?, h.frame_eq]

theorem tests_eq {r : FrameRef} (hr : base ≤ r) (i : Bool) : ((st i).frame r).tests = [] := by
  cases i with
  | false => exact h.tests r hr
  | true => exact h.frame_eq r ▸ h.tests r hr

/-! ### Steps of twin stores -/

/-- A step that leaves frames alone. -/
theorem of_frames {st' : Bool → Store} (hst' : Store.Companions Function.Twins st')
    (hframes : ∀ i, (st' i).frames = (st i).frames) : Store.Twins base st' where
  toCompanions := hst'
  frames := by rw [hframes, hframes, h.frames]
  base_le := by rw [hframes]; exact h.base_le
  tests r hr := by rw [frame, hframes]; exact h.tests r hr

theorem pushObject (slots : Slots Text Value) :
    Store.Twins base fun i => (st i).pushObject slots :=
  h.of_frames (h.toCompanions.pushObject slots) fun _ => rfl

theorem putSlot (r : ObjectRef) (name : Text) (v : Value) :
    Store.Twins base fun i => (st i).putSlot r name v :=
  h.of_frames (h.toCompanions.putSlot r name v) fun _ => rfl

theorem pushFunction {f : Bool → Function} (hf : Function.Twins f) :
    Store.Twins base fun i => (st i).pushFunction (f i) :=
  h.of_frames (h.toCompanions.pushFunction hf) fun _ => rfl

theorem pushFrame (vars : Slots String Value) :
    Store.Twins base fun i => (st i).pushFrame vars := by
  refine ⟨h.of_same (fun _ => rfl) (fun _ => rfl), by simp only [Store.pushFrame, h.frames], ?_,
    fun r hr => ?_⟩
  · exact h.base_le.trans (by simp [Store.pushFrame])
  · rw [Alike.frame_pushFrame]
    split
    · rfl
    · exact h.tests r hr

theorem bind (r : FrameRef) (name : String) (v : Value) :
    Store.Twins base fun i => (st i).bind r name v := by
  refine ⟨h.of_same (fun _ => rfl) (fun _ => rfl), by simp only [Store.bind, h.frames], ?_,
    fun r' hr' => ?_⟩
  · exact h.base_le.trans (by simp [Store.bind])
  · rw [Alike.frame_bind]
    split <;> exact h.tests r' hr'

end Twins
end Store

/-! ### Twin evaluations -/

/-- The fault without its place. -/
def Fault.unplaced : Fault → Fault
  | .error cause _ => .error cause none
  | f => f

@[simp] theorem Fault.unplaced_locate (pos : Option Pos) (f : Fault) :
    (f.locate pos).unplaced = f.unplaced := by
  cases f with
  | error cause place => cases place <;> rfl
  | _ => rfl

/-- The answers are the same, or the failures but for their places. -/
inductive SameButPlace : Except Fault α → Except Fault α → Prop
  | ok (a : α) : SameButPlace (.ok a) (.ok a)
  | error {f f' : Fault} (h : f.unplaced = f'.unplaced) : SameButPlace (.error f) (.error f')

theorem SameButPlace.of_sameUpTo {x y : Except Fault α} (h : SameUpTo Fault.unplaced x y) :
    SameButPlace x y := by
  cases h with
  | ok a => exact .ok a
  | error h => exact .error h

namespace Eval

/-- From twin stores, the first evaluation lacks depth, or both do the same up to the places of
failures. -/
abbrev Twins (base : FrameRef) (m : Bool → Eval α) : Prop :=
  Together (Store.Twins base) Fault.unplaced m

namespace Twins
variable {base : FrameRef} {host : Host}

theorem rethrow {m : Bool → Eval α} (pos : Bool → Option Pos) (hm : Twins base m) :
    Twins base fun i => tryCatch (m i) fun f => MonadExcept.throw (f.locate (pos i)) :=
  Together.rethrow (fun f f' h => by simpa only [Fault.unplaced_locate] using h) hm

theorem newFunction {f : Bool → Function} (hf : Function.Twins f) :
    Twins base fun i => Eval.newFunction (f i) :=
  .modifyGet (fun _ hst => congrArg Value.function hst.functions_size)
    fun _ hst => hst.pushFunction hf

/-- A new frame is as new to both. -/
theorem newScope (outer : List FrameRef) (vars : Slots String Value) {f : Bool → Scope → Eval β}
    (hf : ∀ inner : Scope, base ≤ inner.inner → Twins base fun i => f i inner) :
    Twins base fun i => (MonadStateOf.modifyGet fun st : Store =>
      ((⟨st.frames.size, outer⟩ : Scope), st.pushFrame vars)) >>= f i := by
  intro st h
  have hsize (i : Bool) : (st i).frames.size = (st false).frames.size := by
    cases i with
    | false => rfl
    | true => rw [h.frames]
  have hpush : Store.Twins base fun i => (st i).pushFrame vars := h.pushFrame vars
  have hrun := hf ⟨(st false).frames.size, outer⟩ h.base_le _ hpush
  have hresult (i : Bool) : ((MonadStateOf.modifyGet fun st : Store =>
      ((⟨st.frames.size, outer⟩ : Scope), st.pushFrame vars)) >>= f i).result (st i) =
        (f i ⟨(st i).frames.size, outer⟩).result ((st i).pushFrame vars) := rfl
  have hafter (i : Bool) : ((MonadStateOf.modifyGet fun st : Store =>
      ((⟨st.frames.size, outer⟩ : Scope), st.pushFrame vars)) >>= f i).after (st i) =
        (f i ⟨(st i).frames.size, outer⟩).after ((st i).pushFrame vars) := rfl
  simpa only [hresult, hafter, hsize] using hrun

/-- Twins is what evaluations are that do not look into functions. -/
def logic (host : Host) (base : FrameRef) : StoreLogic host Bool where
  World := Unit
  Later _ _ := True
  Holds _ := Twins base
  Place := Scope
  scopeOf scope _ := scope
  Sees _ _ := True
  Finds _ scope := base ≤ scope.inner
  Owns _ scope := base ≤ scope.inner
  Knows t := ∃ test, t = .builtin test
  sees _ := trivial
  finds := id
  later _ := id
  pure := .pure
  throw _ := .throw _
  hostFails _ _ := .throw _
  bind := .bind
  datum v := .finite fun _ hst => hst.sameObjects.datum?_eq v
  equal v w := .finite fun _ hst => hst.sameObjects.equal?_eq v w
  holds? vs v := .finite fun _ hst => hst.sameObjects.holds?_eq vs v
  truthy v := .ask fun _ hst => hst.sameObjects.truthy_eq v
  slotsOf r := .ask fun _ hst => hst.sameObjects.slots_eq r
  lookup scope name := .ask fun _ hst => hst.lookup_eq scope name
  newObject slots := .modifyGet (fun _ hst => by rw [hst.objects]) fun _ hst => hst.pushObject slots
  stringMethod s m := newFunction (.stringMethod s m)
  objectMethod r m := newFunction (.objectMethod r m)
  hostFunction f := newFunction (.host f)
  innerScope _ h := newScope _ [] fun inner => h () inner trivial
  bindName name v _ := .modifyGet (fun _ _ => rfl) fun _ hst => hst.bind _ name v
  findTest name := fun hscope hf => .findTest name (fun _ hst => hst.tests_eq hscope) hf
  hostTest name key v args h := nomatch h

end Twins
end Eval

/-! ### Twin templates -/

/-- Evaluators that do the same for twin statements. The first may lack the depth for a comment. -/
structure Evaluator.Twins (base : FrameRef) (ev : Bool → Evaluator) : Prop where
  expr : ∀ (e : Expr) ⦃scope : Scope⦄, base ≤ scope.inner →
    Eval.Twins base fun i => (ev i).expr e scope
  stmt : ∀ {s : Bool → Stmt}, Stmt.Twins s → ∀ ⦃scope : Scope⦄, base ≤ scope.inner →
    Eval.Twins base fun i => (ev i).stmt (s i) scope
  first : ∀ (w : Word) (scope : Scope), (ev false).stmt (.comment w) scope = pure (.text "") ∨
    (ev false).stmt (.comment w) scope = throw .endless
  second : ∀ (w : Word) (scope : Scope), (ev true).stmt (.comment w) scope = pure (.text "")

namespace Eval.Twins
variable {base : FrameRef} {host : Host} {ev : Bool → Evaluator} {scope : Scope}

theorem block_comment {ev : Evaluator} {w : Word}
    (h : ev.stmt (.comment w) scope = Pure.pure (.text "")) (before : Text) (ss : List Stmt) :
    Eval.block ev scope before (.comment w :: ss) = Eval.block ev scope before ss := by
  have hempty : before ++ ("" : Text) = before := Text.toList_injective (by simp)
  rw [Eval.block, h, pure_bind]
  dsimp only
  rw [hempty]

theorem block (hev : Evaluator.Twins base ev) (hscope : base ≤ scope.inner)
    {body : Bool → List Stmt} (h : Program.Twins body) (before : Text) :
    Twins base fun i => Eval.block (ev i) scope before (body i) := by
  induction h generalizing before with
  | nil => exact .pure (Flow.text before)
  | @cons s ss hs _ ih =>
    simp only [Eval.block]
    refine (hev.stmt hs hscope).bind fun flow => ?_
    cases flow with
    | text t => exact ih (before ++ t)
    | signal signal t => exact .pure (Flow.signal signal (before ++ t))
  | @comment here w ss _ ih =>
    -- where both pass over the comment, it is as if it were not there
    have hpassed (hfirst : here false → (ev false).stmt (.comment w) scope = Pure.pure (.text "")) :
        Twins base fun i =>
          Eval.block (ev i) scope before (if here i then .comment w :: ss i else ss i) := by
      have hskip (i : Bool) :
          Eval.block (ev i) scope before (if here i then .comment w :: ss i else ss i) =
            Eval.block (ev i) scope before (ss i) := by
        split
        · rename_i hhere
          refine block_comment ?_ before (ss i)
          cases i with
          | false => exact hfirst hhere
          | true => exact hev.second w scope
        · rfl
      simp only [hskip]
      exact ih before
    rcases hev.first w scope with hpure | hendless
    · exact hpassed fun _ => hpure
    · by_cases hhere : here false
      · refine fun st _ => .inl ?_
        dsimp only
        rw [if_pos hhere, Eval.block, hendless]
        rfl
      · exact hpassed fun h => absurd h hhere

theorem covers (hev : Evaluator.Twins base ev) : (logic host base).Covers ev :=
  fun _ e _ hscope => hev.expr e hscope.2

theorem body (hev : Evaluator.Twins base ev) {body : Bool → List Stmt} (h : Program.Twins body)
    (ω : Unit) (inner : Scope) (hinner : (logic host base).Owns ω inner) :
    (logic host base).Holds () fun i => Eval.block (ev i) inner "" (body i) :=
  block hev hinner h ""

theorem callFunction (hev : Evaluator.Twins base ev) {f : Bool → Function} (hf : Function.Twins f)
    (a : Args) (scope : Scope) :
    (logic host base).Holds () fun i => Eval.callFunction (ev i) host (f i) a scope := by
  cases hf with
  | range => exact Logic.Holds.callRange a
  | raiseException => exact Logic.Holds.callRaise a
  | newNamespace => exact Logic.Holds.callNamespace a
  | stringMethod s m => exact Logic.Holds.callStringMethod s m a
  | objectMethod r m => exact Logic.Holds.callObjectMethod r m a
  | defined name params hbody =>
    exact Logic.Holds.callMacro (covers hev) name params (body hev hbody) a trivial
  | caller params hbody home =>
    have hhome : (logic host base).Sees () home := trivial
    exact Logic.Holds.callCaller params (body hev hbody) hhome a
  | host f => exact Logic.Holds.callHost f a

theorem callValue (hev : Evaluator.Twins base ev) : (logic host base).CoversCalls ev := by
  intro _ v a scope _
  cases v with
  | function r =>
    intro st h
    have hrun : (logic host base).Holds () fun i =>
        Eval.callFunction (ev i) host ((st i).function r) a scope :=
      callFunction hev (h.functions r) a scope
    exact hrun st h
  | _ => exact Logic.Holds.fail _

theorem assign (hev : Evaluator.Twins base ev) (hscope : base ≤ scope.inner) (target : Expr)
    (v : Value) : (logic host base).Holds () fun i => Eval.assign (ev i) scope target v := by
  simp only [assign_eq_assignWith]
  refine Logic.Holds.assignWith (covers hev) hscope (fun r name w => ?_) target v
  exact Together.modifyGet (fun _ _ => rfl) fun _ hst => hst.putSlot r name w

theorem stmtInner (hev : Evaluator.Twins base ev) (hscope : base ≤ scope.inner) {s : Bool → Stmt}
    (hs : Stmt.Twins s) :
    (logic host base).Holds () fun i => Eval.stmtInner host (ev i) (s i) scope := by
  have hcovers : (logic host base).Covers ev := covers hev
  have hcall : (logic host base).CoversCalls ev := callValue hev
  have howns : (logic host base).Owns () scope := hscope
  have hclosed {body : Bool → List Stmt} (h : Program.Twins body) :
      (logic host base).Holds () fun i => Eval.closedBlock (ev i) scope (body i) :=
    .closedBlock (block hev hscope h "")
  unfold Eval.stmtInner
  cases hs with
  | text w => exact .pure _
  | output e => exact (hcovers e howns.admits).bind fun v => .output v
  | choice t hbody halternate =>
    refine (hcovers t howns.admits).bind fun v => (Logic.Holds.truthy v).bind fun b => ?_
    cases b with
    | true => exact block hev hscope hbody ""
    | false => exact block hev hscope halternate ""
  | loop target e hbody hdefault =>
    exact .loop hcovers target e (body hev hbody) (body hev hdefault) trivial
  | assign target e =>
    exact (hcovers e howns.admits).bind fun v => (assign hev hscope target v).bind fun _ => .pure _
  | capture target hbody =>
    exact (hclosed hbody).bind fun t => (assign hev hscope target _).bind fun _ => .pure _
  | defineMacro name params hbody =>
    refine (Logic.Holds.mapM Logic.Holds.param params).bind fun ps => ?_
    refine Logic.Holds.bind (newFunction (.defined name.text ps hbody)) fun v => ?_
    exact (Logic.Holds.bindName howns _ v).bind fun _ => .pure _
  | callBlock callee as params hbody =>
    exact (Logic.Holds.callBlock hcovers hcall howns.admits callee as _ fun _ names _ =>
      newFunction (.caller names hbody scope)).bind fun v => .output v
  | filterBlock f hbody =>
    exact (hclosed hbody).bind fun t =>
      (Logic.Holds.filterBy hcovers howns.admits _ f).bind fun v => .output v
  | control signal w => exact .pure _

end Eval.Twins

theorem Evaluator.within_comment (host : Host) (n : Nat) (w : Word) (scope : Scope) :
    (within host (n + 1)).stmt (.comment w) scope = pure (.text "") := rfl

/-- So it is where the first evaluator has less depth. -/
theorem Evaluator.within_twins (host : Host) (base : FrameRef) {n m : Nat} (h : n < m) :
    Twins base fun i => within host (if i then m else n) := by
  induction n generalizing m with
  | zero =>
    obtain ⟨m, rfl⟩ := Nat.exists_eq_succ_of_ne_zero (Nat.ne_of_gt h)
    exact ⟨fun _ _ _ _ _ => .inl rfl, fun _ _ _ _ _ => .inl rfl, fun _ _ => .inr rfl,
      within_comment host m⟩
  | succ n ih =>
    obtain ⟨m, rfl⟩ := Nat.exists_eq_succ_of_ne_zero (Nat.ne_of_gt (Nat.zero_lt_of_lt h))
    have hinner := ih (Nat.lt_of_succ_lt_succ h)
    have hstep (i : Bool) : within host (if i then m + 1 else n + 1) =
        ⟨Eval.expr host (within host (if i then m else n)),
          Eval.stmt host (within host (if i then m else n))⟩ := by
      cases i <;> rfl
    simp only [hstep]
    refine ⟨fun e scope hscope => ?_, fun hs scope hscope => ?_, fun w scope => .inl ?_, ?_⟩
    · have hcovers : (Eval.Twins.logic host base).Covers _ := Eval.Twins.covers hinner
      have hcall : (Eval.Twins.logic host base).CoversCalls _ := Eval.Twins.callValue hinner
      have hrun : (Eval.Twins.logic host base).Holds () fun i =>
          Eval.exprInner host (within host (if i then m else n)) e scope :=
        Eval.Logic.Holds.exprInner hcovers ⟨trivial, hscope⟩ hcall e
      exact .rethrow _ hrun
    · exact .rethrow _ (Eval.Twins.stmtInner hinner hscope hs)
    · exact within_comment host n w scope
    · exact within_comment host m

end ChatTemplate
