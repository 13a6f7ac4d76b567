import ChatTemplate.Proofs.Eval.Tame
import ChatTemplate.Proofs.Template.Variables

/-!
# What the variables do not reach

A rendering calls the functions that the values of its variables reach, and those that it adds
itself. So it has the same outcome in a store whose other functions are gone (`Part.prune`), and what
`Evaluator.within_tame` asks of all functions is needed of those only (`Template.render_tame`).
-/

namespace ChatTemplate
open Variables
variable {P : Part} {st : Store} {u : View}

/-! ### The store without the rest -/

namespace Part

/-- The references in the part and those that are yet to be given out, each going with itself. -/
def diagonal (P : Part) (st : Store) : View where
  objects r s := r = s ∧ (r ∈ P.objects ∨ st.objects.size ≤ r)
  functions r s := r = s ∧ (r ∈ P.functions ∨ st.functions.size ≤ r)
  objects_unique := ⟨fun _ _ _ h h' => h.1.trans h'.1.symm, fun _ _ _ h h' => h.1.symm.trans h'.1⟩
  functions_unique :=
    ⟨fun _ _ _ h h' => h.1.trans h'.1.symm, fun _ _ _ h h' => h.1.symm.trans h'.1⟩
  names := P.names
  base := st.frames.size
  frames := P.frames

open Classical in
/-- The store whose functions outside the part do nothing of their own. -/
noncomputable def prune (P : Part) (st : Store) : Store :=
  { st with functions := st.functions.mapIdx fun r f => if r ∈ P.functions then f else default }

theorem pairing_le_diagonal : P.pairing.Le (P.diagonal st).toPairing :=
  ⟨fun _ _ h => ⟨h.1, .inl h.2⟩, fun _ _ h => ⟨h.1, .inl h.2⟩⟩

theorem prune_function_of_mem {r : FunctionRef} (hr : r ∈ P.functions) :
    (P.prune st).function r = st.function r := by
  cases h : st.functions[r]? <;> simp [prune, Store.function, h, hr]

theorem prune_function_of_notMem {r : FunctionRef} (hr : r ∉ P.functions) :
    (P.prune st).function r = .range := by
  cases h : st.functions[r]? <;> simp [prune, Store.function, h, hr] <;> rfl

/-- A closed part sees no difference to the store without the rest. -/
theorem prune_alike (hP : P.Closed st) : st.Alike (P.diagonal st) (P.prune st) where
  frames_size := rfl
  base_le := Nat.le_refl _
  vars r hr n hn := by
    show Option.Rel _ ((st.frame r).vars.lookup n) ((st.frame r).vars.lookup n)
    rcases hr with hr | hr
    · rw [frame_of_size_le hr]
      exact .none
    · cases hv : (st.frame r).vars.lookup n with
      | none => exact .none
      | some v => exact .some ((hP.vars r hr n hn v hv).mono pairing_le_diagonal)
  tests r hr := by
    show (st.frame r).tests = [] ∧ (st.frame r).tests = []
    rw [frame_of_size_le hr]
    exact ⟨rfl, rfl⟩
  fresh_objects i := ⟨rfl, .inr (Nat.le_add_right _ _)⟩
  fresh_functions i := by
    have hsize : (P.prune st).functions.size = st.functions.size := by simp [prune]
    exact ⟨by rw [hsize], .inr (Nat.le_add_right _ _)⟩
  objects r s hrs := by
    obtain ⟨rfl, hr | hr⟩ := hrs
    · show Slots.Related _ (st.slots r) (st.slots r)
      refine List.forall₂_same.mpr fun e he => ⟨rfl, ?_⟩
      exact (hP.slots r hr e he).mono pairing_le_diagonal
    · show Slots.Related _ (st.slots r) (st.slots r)
      rw [slots_of_size_le hr]
      exact .nil
  functions r s hrs := by
    obtain ⟨rfl, hr | hr⟩ := hrs
    · have hle : (P.view st.frames.size).toPairing.Le (P.diagonal st).toPairing :=
        pairing_le_diagonal
      rw [prune_function_of_mem hr]
      exact (hP.bodies r hr).mono hle (fun _ h => h) fun _ h => h
    · have hnot : r ∉ P.functions := fun h => Nat.not_lt.mpr hr (hP.functions_lt r h)
      rw [prune_function_of_notMem hnot, function_of_size_le hr]
      exact .range

end Part

/-! ### Rendering in both stores -/

namespace Eval.Matches

theorem rootScope (hglobals : ∀ n ∈ u.names,
      Option.Rel (Value.Alike u.toPairing) (Store.globalVars.lookup n) (Store.globalVars.lookup n)) :
    Matches u (fun s s' => s = s' ∧ u.Admits s) Eval.rootScope Eval.rootScope := by
  intro st st' hst
  refine ⟨hst.pushFrameOf hglobals, .ok ⟨?_, hst.base_le, fun r hr => .inl ?_⟩⟩
  · rw [hst.frames_size]
  · obtain rfl := List.mem_singleton.mp hr
    exact hst.base_le

theorem declare {s : Scope} (hs : u.Admits s) {name : String} (hname : name ∈ u.names)
    {h : HostValue} (hh : h.Alike u.toPairing h) :
    Matches u (Value.Alike u.toPairing) (Eval.declare s name h) (Eval.declare s name h) := by
  unfold Eval.declare
  refine get.bind fun st st' hst => ?_
  rw [optionRel_isSome (hst.vars s.inner (.inl hs.inner) name hname)]
  split
  · exact fail_bind _
  · exact (ofHost hh).bind fun v v' hv => (bindName s name hv).bind fun _ _ _ => .pure hv

theorem declareAll {s : Scope} (hs : u.Admits s) {vars : Variables}
    (hnames : ∀ n, n ∈ u.names) (hvars : ∀ e ∈ vars, e.2.Alike u.toPairing e.2) :
    Matches u Eq (Template.declareAll s vars) (Template.declareAll s vars) := by
  have hsame : List.Forall₂ (fun e e' => e = e' ∧ e.2.Alike u.toPairing e.2) vars vars :=
    List.forall₂_same.mpr fun e he => ⟨rfl, hvars e he⟩
  refine forM hsame ?_
  rintro ⟨name, h⟩ _ ⟨rfl, hh⟩
  exact (declare hs (hnames name) hh).bind fun _ _ _ => .pure rfl

theorem scope (hglobals : ∀ n ∈ u.names,
      Option.Rel (Value.Alike u.toPairing) (Store.globalVars.lookup n) (Store.globalVars.lookup n))
    (hnames : ∀ n, n ∈ u.names) {vars : Variables}
    (hvars : ∀ e ∈ vars, e.2.Alike u.toPairing e.2) :
    Matches u (fun s s' => s = s' ∧ u.Admits s) (Template.scope vars) (Template.scope vars) := by
  have hconstants : ∀ e ∈ Template.constants, e.2.Alike u.toPairing e.2 := by
    simp only [Template.constants, List.forall_mem_cons, List.not_mem_nil, false_imp_iff,
      forall_const]
    exact ⟨.bool _, .bool _, .bool _, .bool _, .null, .null, trivial⟩
  unfold Template.scope
  refine (rootScope hglobals).bind ?_
  rintro s _ ⟨rfl, hs⟩
  refine (declareAll hs hnames hconstants).bind fun _ _ _ => ?_
  refine (innerScope hs.chain).bind ?_
  rintro s _ ⟨rfl, hs⟩
  exact (declareAll hs hnames hvars).bind fun _ _ _ => .pure ⟨rfl, hs⟩

theorem render {host : Host} (hhost : host.Blind u.toPairing) (depth : Nat)
    (hglobals : ∀ n ∈ u.names,
      Option.Rel (Value.Alike u.toPairing) (Store.globalVars.lookup n) (Store.globalVars.lookup n))
    (hnames : ∀ n, n ∈ u.names) (t : Template) {vars keywords : Variables}
    (hvars : ∀ e ∈ vars.merge keywords, e.2.Alike u.toPairing e.2) :
    Matches u Eq (t.render host depth vars keywords) (t.render host depth vars keywords) := by
  refine (scope hglobals hnames hvars).bind ?_
  rintro s _ ⟨rfl, hs⟩
  exact closedBlock (Evaluator.within_blind hhost depth) hs fun n _ => hnames n

end Eval.Matches

/-- If the functions that the variables reach are tame, and the host gives out no others, a tame
template fails with what is allowed only. -/
theorem Template.render_tame {Q : Fault → Prop} (hQ : Permits Q) {host : Host}
    (hallowed : host.Allowed Q) (hP : P.Closed st) (hnames : ∀ n, n ∈ P.names)
    (hhost : host.Blind (P.diagonal st).toPairing)
    (hbodies : ∀ r ∈ P.functions, (st.function r).Tame host Q) (depth : Nat) {t : Template}
    (ht : Stmt.AllTame Q false t.program) {vars keywords : Variables}
    (hvars : ∀ e ∈ vars.merge keywords, P.HoldsHost e.2) {f : Fault}
    (hf : (t.render host depth vars keywords).result st = .error f) : Q f := by
  have hle : P.pairing.Le (P.diagonal st).toPairing := Part.pairing_le_diagonal
  have hglobals : ∀ n ∈ P.names, Option.Rel (Value.Alike (P.diagonal st).toPairing)
      (Store.globalVars.lookup n) (Store.globalVars.lookup n) := by
    intro n _
    cases hv : Store.globalVars.lookup n with
    | none => exact .none
    | some v => exact .some ((hP.globals n v hv).mono hle)
  have hsame := (Eval.Matches.render hhost depth hglobals hnames t fun e he =>
    (hvars e he).mono hle) st (P.prune st) (Part.prune_alike hP)
  have htame : (P.prune st).Tame host Q := by
    refine ⟨fun r => ?_, .inl hallowed⟩
    by_cases hr : r ∈ P.functions
    · rw [Part.prune_function_of_mem hr]
      exact hbodies r hr
    · rw [Part.prune_function_of_notMem hr]
      exact trivial
  have hmeets : Eval.Meets (.tame host Q) (t.render host depth vars keywords) :=
    Eval.Tame.render (Contract.tame_liberal hQ) depth ht (.inl (Contract.tame_open hallowed))
  have hfail := hmeets (P.prune st) htame
  rw [← hsame.2.eq, hf] at hfail
  exact hfail.2

end ChatTemplate
