import ChatTemplate.Proofs.Eval.Dependence
import ChatTemplate.Proofs.Store.Basic
import ChatTemplate.Proofs.Template.Declaration

/-!
# What a rendering depends on

`Template.render_congr`: two renderings of a template from one store have the same outcome, text or
failure, if the variables agree on the names in the program. Neither the order of the variables nor
those of other names matter. Macros run in the scope of their call, so that the names in a macro or
call block that the variables bring along count as well: the names are those of a `Part` of the store
that the values of the variables are in, and that refers to nothing outside it.
-/

namespace ChatTemplate
open Variables

/-! ### Parts of a store -/

/-- Objects, functions and frames of a store, and the names that matter in it. -/
structure Part where
  objects : Set ObjectRef
  functions : Set FunctionRef
  frames : Set FrameRef
  names : Set String

namespace Part
variable (P : Part)

/-- The references in the part, each of which goes with itself. -/
def pairing : Pairing where
  objects r s := r = s ∧ r ∈ P.objects
  functions r s := r = s ∧ r ∈ P.functions
  objects_unique := ⟨fun _ _ _ h h' => h.1.trans h'.1.symm, fun _ _ _ h h' => h.1.symm.trans h'.1⟩
  functions_unique :=
    ⟨fun _ _ _ h h' => h.1.trans h'.1.symm, fun _ _ _ h h' => h.1.symm.trans h'.1⟩

/-- The part as a view for runs whose own frames begin at `base`. -/
def view (base : FrameRef) : View := { P.pairing with names := P.names, base, frames := P.frames }

/-- All references in the value are in the part. -/
def Holds (v : Value) : Prop := v.Alike P.pairing v

/-- All references in the host's value are in the part. -/
def HoldsHost (h : HostValue) : Prop := h.Alike P.pairing h

/-- Nothing in the part refers to anything outside it, as far as only its names are looked up. -/
structure Closed (st : Store) : Prop where
  objects_lt : ∀ r ∈ P.objects, r < st.objects.size
  functions_lt : ∀ r ∈ P.functions, r < st.functions.size
  frames_lt : ∀ r ∈ P.frames, r < st.frames.size
  globals : ∀ n v, Store.globalVars.lookup n = some v → P.Holds v
  slots : ∀ r ∈ P.objects, ∀ e ∈ st.slots r, P.Holds e.2
  bodies : ∀ r ∈ P.functions, (st.function r).Alike (P.view st.frames.size) (st.function r)
  vars : ∀ r ∈ P.frames, ∀ n ∈ P.names, ∀ v, (st.frame r).vars.lookup n = some v → P.Holds v

end Part

/-! ### The scope of a rendering -/

/-- What is known of the store `s` in which the variables of a rendering that begins in `st` are to be
declared: two frames are new, that of the global functions and constants and an empty one inside. -/
structure Prepared (P : Part) (st s : Store) : Prop where
  keeps : st.Keeps s
  frames_size : s.frames.size = st.frames.size + 2
  objects_size : s.objects.size = st.objects.size
  functions_size : s.functions.size = st.functions.size
  old : ∀ r < st.frames.size, s.frame r = st.frame r
  own : ∀ r, st.frames.size ≤ r → ∀ n v, (s.frame r).vars.lookup n = some v → P.Holds v
  tests : ∀ r, st.frames.size ≤ r → (s.frame r).tests = []
  empty : (s.frame (st.frames.size + 1)).vars = []

namespace Template

/-- The scope in which the variables are declared. -/
def innermost (st : Store) : Scope := ⟨st.frames.size + 1, [st.frames.size]⟩

theorem lookup_constants {n : String} {h : HostValue} (hn : constants.lookup n = some h) :
    h = .null ∨ ∃ b, h = .bool b := by
  simp only [constants, List.lookup_cons] at hn
  repeat' split at hn
  all_goals simp_all

theorem constants_declared (st : Store) :
    (declareAll ⟨st.frames.size, []⟩ constants).result (st.pushFrame Store.globalVars) = .ok () ∧
      Declared st.frames.size (st.pushFrame Store.globalVars) constants
        ((declareAll ⟨st.frames.size, []⟩ constants).after (st.pushFrame Store.globalVars)) := by
  refine declareAll_declared ?_ ?_ ?_ ?_
  · simp [Store.pushFrame]
  · simp [constants, HostValue.convertible]
  · decide
  · intro n hn
    rw [Store.Alike.frame_pushFrame, if_pos rfl]
    revert n
    decide

/-- The store in which the variables of a rendering are declared. -/
def prepared (st : Store) : Store :=
  ((declareAll ⟨st.frames.size, []⟩ constants).after (st.pushFrame Store.globalVars)).pushFrame []

theorem constants_frames_size (st : Store) :
    ((declareAll ⟨st.frames.size, []⟩ constants).after
      (st.pushFrame Store.globalVars)).frames.size = st.frames.size + 1 := by
  rw [(constants_declared st).2.frames_size]
  simp [Store.pushFrame]

theorem frame_prepared (st : Store) (r : FrameRef) :
    (prepared st).frame r = if r = st.frames.size + 1 then ⟨[], []⟩ else
      ((declareAll ⟨st.frames.size, []⟩ constants).after
        (st.pushFrame Store.globalVars)).frame r := by
  unfold prepared
  rw [Store.Alike.frame_pushFrame, constants_frames_size]

theorem prepared_spec {P : Part} {st : Store} (hP : P.Closed st) :
    Prepared P st (prepared st) := by
  obtain ⟨-, hc⟩ := constants_declared st
  have hsize := constants_frames_size st
  have hframe := frame_prepared st
  constructor
  case keeps => exact ⟨hc.keeps.objects, hc.keeps.functions⟩
  case frames_size =>
    simp only [prepared, Store.pushFrame, Array.size_push]
    exact congrArg Nat.succ hsize
  case objects_size => exact hc.objects_size
  case functions_size => exact hc.functions_size
  case old =>
    intro r hr
    rw [hframe, if_neg (Nat.ne_of_lt (Nat.lt_succ_of_lt hr)), hc.frame_of_ne r (Nat.ne_of_lt hr),
      Store.Alike.frame_pushFrame, if_neg (Nat.ne_of_lt hr)]
  case own =>
    intro r hr n v hv
    rw [hframe] at hv
    split at hv
    case isTrue => cases hv
    by_cases heq : r = st.frames.size
    · subst heq
      cases hn : constants.lookup n with
      | none =>
        rw [hc.lookup_of_none n hn, Store.Alike.frame_pushFrame, if_pos rfl] at hv
        exact hP.globals n v hv
      | some h =>
        obtain ⟨s', w, -, -, hw, hlookup, -⟩ := hc.lookup_of_some n h hn
        rw [hlookup] at hv
        obtain rfl := Option.some.inj hv
        rcases lookup_constants hn with rfl | ⟨b, rfl⟩
        · obtain rfl : Value.null = w := Except.ok.inj hw
          exact .null
        · obtain rfl : Value.bool b = w := Except.ok.inj hw
          exact .bool b
    · rw [hc.frame_of_ne r heq, Store.Alike.frame_pushFrame, if_neg heq,
        frame_of_size_le hr] at hv
      cases hv
  case tests =>
    intro r hr
    rw [hframe]
    split
    · rfl
    by_cases heq : r = st.frames.size
    · rw [heq, hc.tests, Store.Alike.frame_pushFrame, if_pos rfl]
    · rw [hc.frame_of_ne r heq, Store.Alike.frame_pushFrame, if_neg heq, frame_of_size_le hr]
  case empty =>
    rw [hframe, if_pos rfl]

/-- Once the constants are declared, the variables are what is left to declare. -/
theorem scope_eq_declareAll (st : Store) (vars : Variables) :
    let declared := declareAll (innermost st) vars >>= fun _ => pure (innermost st)
    (scope vars).result st = declared.result (prepared st) ∧
      (scope vars).after st = declared.after (prepared st) := by
  obtain ⟨hresult, hc⟩ := constants_declared st
  have hroot : Eval.rootScope.result st = .ok ⟨st.frames.size, []⟩ := rfl
  have hroot' : Eval.rootScope.after st = st.pushFrame Store.globalVars := rfl
  have hsize := constants_frames_size st
  have hinner : (Eval.innerScope ⟨st.frames.size, []⟩).result
      ((declareAll ⟨st.frames.size, []⟩ constants).after (st.pushFrame Store.globalVars)) =
        .ok (innermost st) := by
    show Except.ok (Scope.mk _ _) = _
    rw [hsize]
    rfl
  have hinner' : (Eval.innerScope ⟨st.frames.size, []⟩).after
      ((declareAll ⟨st.frames.size, []⟩ constants).after (st.pushFrame Store.globalVars)) =
        prepared st := rfl
  unfold scope
  rw [Eval.result_bind_ok hroot, Eval.after_bind_ok hroot, hroot', Eval.result_bind_ok hresult,
    Eval.after_bind_ok hresult, Eval.result_bind_ok hinner, Eval.after_bind_ok hinner, hinner']
  exact ⟨rfl, rfl⟩

theorem scope_eq (st : Store) {vars : Variables}
    (hok : (declareAll (innermost st) vars).result (prepared st) = .ok ()) :
    (scope vars).result st = .ok (innermost st) ∧
      (scope vars).after st = (declareAll (innermost st) vars).after (prepared st) := by
  obtain ⟨hresult, hafter⟩ := scope_eq_declareAll st vars
  rw [hresult, hafter, Eval.result_bind_ok hok, Eval.after_bind_ok hok]
  exact ⟨rfl, rfl⟩

end Template

/-! ### Two renderings -/

/-- The view of two renderings whose variables are declared in different orders. -/
def Part.movedView {P : Part} {st : Store} (hP : P.Closed st) (vars vars' : Variables) : View where
  objects := Moved (HostValue.room 1 0) P.objects st.objects.size P.names vars vars'
  functions := Moved (HostValue.room 0 1) P.functions st.functions.size P.names vars vars'
  objects_unique := Moved.biUnique hP.objects_lt
  functions_unique := Moved.biUnique hP.functions_lt
  names := P.names
  base := st.frames.size
  frames := P.frames

section Alike
variable {P : Part} {st s t t' : Store} {vars vars' : Variables}

theorem Part.pairing_le_movedView (hP : P.Closed st) :
    P.pairing.Le (movedView hP vars vars').toPairing :=
  ⟨fun _ _ h => .inl h, fun _ _ h => .inl h⟩

theorem slots_extend (st : Store) (os : List (Slots Text Value)) (fs : List Function) (i : Nat) :
    (st.extend os fs).slots (st.objects.size + i) = os[i]?.getD [] := by
  have hle := Nat.not_lt.mpr (Nat.le_add_right st.objects.size i)
  simp [Store.extend, Store.slots, Array.getElem?_append, hle]

theorem function_extend (st : Store) (os : List (Slots Text Value)) (fs : List Function)
    (i : Nat) : (st.extend os fs).function (st.functions.size + i) = fs[i]?.getD default := by
  have hle := Nat.not_lt.mpr (Nat.le_add_right st.functions.size i)
  simp [Store.extend, Store.function, Array.getElem?_append, hle]

/-- A variable that matters is alike on both sides, and so is what it adds to the stores. -/
theorem declared_alike (hP : P.Closed st) (hs : Prepared P st s) {r : FrameRef}
    (ht : Declared r s vars t) (ht' : Declared r s vars' t') {n : String} (hn : n ∈ P.names)
    {h : HostValue} (hv : vars.lookup n = some h) (hv' : vars'.lookup n = some h)
    (hconv : h.convertible) (hh : P.HoldsHost h) :
    let u := P.movedView hP vars vars'
    (∃ v v', (t.frame r).vars.lookup n = some v ∧ (t'.frame r).vars.lookup n = some v' ∧
      v.Alike u.toPairing v') ∧
    (∀ i < h.room 1 0, Slots.Related (Value.Alike u.toPairing)
      (t.slots (st.objects.size + offset (HostValue.room 1 0) vars n + i))
      (t'.slots (st.objects.size + offset (HostValue.room 1 0) vars' n + i))) ∧
    (∀ i < h.room 0 1, Function.Alike u
      (t.function (st.functions.size + offset (HostValue.room 0 1) vars n + i))
      (t'.function (st.functions.size + offset (HostValue.room 0 1) vars' n + i))) := by
  intro u
  obtain ⟨s₁, v, hobjects, hfunctions, hresult, hlookup, hkeeps⟩ := ht.lookup_of_some n h hv
  obtain ⟨s₁', v', hobjects', hfunctions', hresult', hlookup', hkeeps'⟩ :=
    ht'.lookup_of_some n h hv'
  obtain ⟨a, b, hab⟩ := Eval.ofHost_allocates h hconv s₁ s₁'
  obtain rfl : a.answer = v := Except.ok.inj (a.result_eq.symm.trans hresult)
  obtain rfl : b.answer = v' := Except.ok.inj (b.result_eq.symm.trans hresult')
  rw [a.after_eq] at hkeeps
  rw [b.after_eq] at hkeeps'
  rw [hs.objects_size] at hobjects hobjects'
  rw [hs.functions_size] at hfunctions hfunctions'
  have hnext : Eval.PairsNext u s₁ s₁' (h.room 1 0) (h.room 0 1) := by
    constructor
    · intro i hi
      rw [hobjects, hobjects']
      exact .inr (.inl ⟨n, hn, h, hv, hv', i, hi, rfl, rfl⟩)
    · intro i hi
      rw [hfunctions, hfunctions']
      exact .inr (.inl ⟨n, hn, h, hv, hv', i, hi, rfl, rfl⟩)
  obtain ⟨hvalue, hslots, hbodies⟩ := hab u (hh.mono (Part.pairing_le_movedView hP)) hnext
  refine ⟨⟨_, _, hlookup, hlookup', hvalue⟩, fun i hi => ?_, fun i hi => ?_⟩
  · rw [← hobjects, ← hobjects', hkeeps.slots_eq, hkeeps'.slots_eq, slots_extend, slots_extend]
    · rcases optionRel_cases (forall₂_getElem? hslots i) with ⟨hx, hy⟩ | ⟨x, y, hx, hy, hxy⟩
      · rw [hx, hy]
        exact .nil
      · rw [hx, hy]
        exact hxy
    · simpa [Store.extend, b.objects_length] using hi
    · simpa [Store.extend, a.objects_length] using hi
  · rw [← hfunctions, ← hfunctions', hkeeps.function_eq, hkeeps'.function_eq, function_extend,
      function_extend]
    · rcases optionRel_cases (forall₂_getElem? hbodies i) with ⟨hx, hy⟩ | ⟨x, y, hx, hy, hxy⟩
      · rw [hx, hy]
        exact .range
      · rw [hx, hy]
        exact hxy
    · simpa [Store.extend, b.functions_length] using hi
    · simpa [Store.extend, a.functions_length] using hi

/-- What the declarations of two renderings agree on. -/
structure Agree (P : Part) (vars vars' : Variables) : Prop where
  lookup_eq : ∀ n ∈ P.names, vars.lookup n = vars'.lookup n
  holds : ∀ n ∈ P.names, ∀ h, vars.lookup n = some h → P.HoldsHost h

/-- After the variables are declared, the stores of two renderings are alike. -/
theorem stores_alike (hP : P.Closed st) (hs : Prepared P st s)
    (ht : Declared (st.frames.size + 1) s vars t) (ht' : Declared (st.frames.size + 1) s vars' t')
    (hagree : Agree P vars vars') (hconv : ∀ e ∈ vars, e.2.convertible) :
    t.Alike (P.movedView hP vars vars') t' := by
  set u := P.movedView hP vars vars'
  have hle : P.pairing.Le u.toPairing := Part.pairing_le_movedView hP
  have hdeclared : ∀ n ∈ P.names, ∀ h, vars.lookup n = some h → _ := fun n hn h hv =>
    declared_alike hP hs ht ht' hn hv (hagree.lookup_eq n hn ▸ hv)
      (hconv (n, h) (mem_of_lookup hv)) (hagree.holds n hn h hv)
  have hself : ∀ x : Option Value, (∀ v, x = some v → P.Holds v) →
      Option.Rel (Value.Alike u.toPairing) x x := by
    intro x hx
    cases x with
    | none => exact .none
    | some v => exact .some ((hx v rfl).mono hle)
  constructor
  case frames_size => rw [ht.frames_size, ht'.frames_size]
  case base_le =>
    rw [ht.frames_size, hs.frames_size]
    exact Nat.le_add_right _ _
  case vars =>
    intro r hr n hn
    by_cases heq : r = st.frames.size + 1
    · subst heq
      cases hv : vars.lookup n with
      | none =>
        have hv' : vars'.lookup n = none := hagree.lookup_eq n hn ▸ hv
        rw [ht.lookup_of_none n hv, ht'.lookup_of_none n hv', hs.empty]
        exact .none
      | some h =>
        obtain ⟨v, v', hv, hv', hvv'⟩ := (hdeclared n hn h hv).1
        rw [hv, hv']
        exact .some hvv'
    · rw [ht.frame_of_ne r heq, ht'.frame_of_ne r heq]
      refine hself _ fun v hv => ?_
      rcases hr with hr | hr
      · exact hs.own r hr n v hv
      · rw [hs.old r (hP.frames_lt r hr)] at hv
        exact hP.vars r hr n hn v hv
  case tests =>
    intro r hr
    by_cases heq : r = st.frames.size + 1
    · subst heq
      rw [ht.tests, ht'.tests]
      exact ⟨hs.tests _ hr, hs.tests _ hr⟩
    · rw [ht.frame_of_ne r heq, ht'.frame_of_ne r heq]
      exact ⟨hs.tests r hr, hs.tests r hr⟩
  case fresh_objects =>
    intro i
    refine .inr (.inr ⟨i, ?_, ?_⟩)
    · rw [ht.objects_size, hs.objects_size]
    · rw [ht'.objects_size, hs.objects_size]
  case fresh_functions =>
    intro i
    refine .inr (.inr ⟨i, ?_, ?_⟩)
    · rw [ht.functions_size, hs.functions_size]
    · rw [ht'.functions_size, hs.functions_size]
  case objects =>
    rintro r r' (⟨rfl, hr⟩ | ⟨n, hn, h, hv, hv', i, hi, rfl, rfl⟩ | ⟨i, rfl, rfl⟩)
    · have hlt := hP.objects_lt r hr
      have hlt' : r < s.objects.size := hs.objects_size ▸ hlt
      rw [ht.keeps.slots_eq hlt', ht'.keeps.slots_eq hlt', hs.keeps.slots_eq hlt]
      exact List.forall₂_same.mpr fun e he => ⟨rfl, (hP.slots r hr e he).mono hle⟩
    · exact (hdeclared n hn h hv).2.1 i hi
    · rw [slots_of_size_le, slots_of_size_le]
      · exact .nil
      · rw [ht'.objects_size, hs.objects_size]
        exact Nat.le_add_right _ _
      · rw [ht.objects_size, hs.objects_size]
        exact Nat.le_add_right _ _
  case functions =>
    rintro r r' (⟨rfl, hr⟩ | ⟨n, hn, h, hv, hv', i, hi, rfl, rfl⟩ | ⟨i, rfl, rfl⟩)
    · have hlt := hP.functions_lt r hr
      have hlt' : r < s.functions.size := hs.functions_size ▸ hlt
      rw [ht.keeps.function_eq hlt', ht'.keeps.function_eq hlt', hs.keeps.function_eq hlt]
      refine Function.Alike.mono ?_ ?_ ?_ (hP.bodies r hr)
      · exact hle
      · exact fun _ hn => hn
      · exact fun _ hr => hr
    · exact (hdeclared n hn h hv).2.2 i hi
    · rw [function_of_size_le, function_of_size_le]
      · exact .range
      · rw [ht'.functions_size, hs.functions_size]
        exact Nat.le_add_right _ _
      · rw [ht.functions_size, hs.functions_size]
        exact Nat.le_add_right _ _

end Alike
/-! ### Merging variables -/

/-- The variables of a rendering: keywords take precedence. -/
def Variables.merge (vars keywords : Variables) : Variables :=
  Slots.putAll (Slots.putAll [] vars) keywords

theorem Variables.nodup_names_merge (vars keywords : Variables) :
    (Slots.names (vars.merge keywords)).Nodup :=
  Slots.nodup_names_putAll (Slots.nodup_names_putAll (s := []) List.nodup_nil vars) keywords

theorem Variables.forall_merge {R : HostValue → Prop} {vars keywords : Variables}
    (hvars : ∀ e ∈ vars, R e.2) (hkeywords : ∀ e ∈ keywords, R e.2) :
    ∀ e ∈ vars.merge keywords, R e.2 :=
  Slots.forall_putAll (Slots.forall_putAll nofun hvars) hkeywords

namespace Template

theorem scope_declared {P : Part} {st : Store} (hP : P.Closed st) {vars : Variables}
    (hnodup : (Slots.names vars).Nodup) (hconv : ∀ e ∈ vars, e.2.convertible) :
    (scope vars).result st = .ok (innermost st) ∧
      Declared (st.frames.size + 1) (prepared st) vars ((scope vars).after st) := by
  have hs := prepared_spec hP
  have hr : (innermost st).inner < (prepared st).frames.size := by
    rw [hs.frames_size]
    exact Nat.lt_succ_self _
  obtain ⟨hok, hdeclared⟩ := declareAll_declared hr hconv hnodup fun n _ => by
    rw [show (innermost st).inner = st.frames.size + 1 from rfl, hs.empty]
    rfl
  obtain ⟨hresult, hafter⟩ := scope_eq st hok
  exact ⟨hresult, hafter ▸ hdeclared⟩

/-- Two renderings of a template have the same outcome if their variables, all of which convert, agree
on the names in the program and in the macros that their values bring along. -/
theorem render_congr {st : Store} {P : Part} (hP : P.Closed st) {host : Host}
    (hhost : ∀ p : Pairing, P.pairing.Le p → host.Blind p) (depth : Nat) (t : Template)
    (hnames : ∀ n ∈ t.program.names, n ∈ P.names) {vars keywords vars' keywords' : Variables}
    (hconv : ∀ e ∈ vars.merge keywords, e.2.convertible)
    (hconv' : ∀ e ∈ vars'.merge keywords', e.2.convertible)
    (hholds : ∀ n ∈ P.names, ∀ h, (vars.merge keywords).lookup n = some h → P.HoldsHost h)
    (hagree : ∀ n ∈ P.names,
      (vars.merge keywords).lookup n = (vars'.merge keywords').lookup n) :
    (t.render host depth vars keywords).result st =
      (t.render host depth vars' keywords').result st := by
  obtain ⟨hresult, hdeclared⟩ := scope_declared hP (nodup_names_merge vars keywords) hconv
  obtain ⟨hresult', hdeclared'⟩ := scope_declared hP (nodup_names_merge vars' keywords') hconv'
  have halike := stores_alike hP (prepared_spec hP) hdeclared hdeclared' ⟨hagree, hholds⟩ hconv
  set u := P.movedView hP (vars.merge keywords) (vars'.merge keywords')
  have hscope : u.Admits (innermost st) := by
    refine ⟨Nat.le_succ st.frames.size, fun r hr => .inl ?_⟩
    rcases List.mem_cons.mp hr with rfl | hr
    · exact Nat.le_succ st.frames.size
    · exact Nat.le_of_eq (List.mem_singleton.mp hr).symm
  have hblind : (Evaluator.within host depth).Blind u :=
    Evaluator.within_blind (hhost _ (Part.pairing_le_movedView hP)) depth
  have hrun : Eval.Matches u Eq (t.program.run host depth (innermost st))
      (t.program.run host depth (innermost st)) :=
    .closedBlock hblind hscope hnames
  show (scope (vars.merge keywords) >>= fun s => t.program.run host depth s).result st =
    (scope (vars'.merge keywords') >>= fun s => t.program.run host depth s).result st
  rw [Eval.result_bind_ok hresult, Eval.result_bind_ok hresult']
  exact (hrun _ _ halike).2.eq

/-! ### Macros that come with the variables -/

/-- The store after a program that defines a macro, `{% macro m() %}{{ x }}{% endmacro %}`. -/
def macroStore : Store :=
  (do
    let scope ← Eval.rootScope
    Program.run Host.none 5 [.defineMacro ⟨"m", ⟨1, 10⟩⟩ [] [.output (.name ⟨"x", ⟨1, 19⟩⟩)]] scope :
      Eval Text).after Store.initial

/-- The macro of `macroStore` and what it prints. -/
def macroVars (x : Text) : Variables := [("m", .value (.function 3)), ("x", .string x)]

/-- The template `{{ m() }}` calls a macro without a word of what the macro prints. -/
def macroCall : Template := ⟨[.output (.call (.name ⟨"m", ⟨1, 4⟩⟩) [])]⟩

theorem macroStore_function : macroStore.function 3 =
    .defined "m" [] [.output (.name ⟨"x", ⟨1, 19⟩⟩)] := by
  rfl

theorem compile_macroCall : compile ⟨true, true⟩ "\x7b\x7b m() \x7d\x7d" = .ok macroCall := by
  have h : tokens (Layout.normalize ⟨true, true⟩ "\x7b\x7b m() \x7d\x7d".toList) = .ok
      [⟨.openExpression, "\x7b\x7b", ⟨1, 1⟩⟩, ⟨.name, "m", ⟨1, 4⟩⟩, ⟨.openParen, "(", ⟨1, 5⟩⟩,
        ⟨.closeParen, ")", ⟨1, 6⟩⟩, ⟨.closeExpression, "\x7d\x7d", ⟨1, 8⟩⟩,
        ⟨.eof, "", ⟨1, 10⟩⟩] := by decide +kernel
  unfold compile Program.compile Program.ofText
  rw [h]
  rfl

/-- The names in a template alone do not settle what is printed: here a macro prints a variable that
the template does not name. -/
theorem render_ne_of_macro :
    compile ⟨true, true⟩ "\x7b\x7b m() \x7d\x7d" = .ok macroCall ∧
      (∀ e ∈ (macroVars "1").merge [], e.2.convertible) ∧
      (∀ e ∈ (macroVars "2").merge [], e.2.convertible) ∧
      (∀ n ∈ macroCall.program.names,
        ((macroVars "1").merge []).lookup n = ((macroVars "2").merge []).lookup n) ∧
      (macroCall.render Host.none 5 (macroVars "1") []).result macroStore = .ok "1" ∧
      (macroCall.render Host.none 5 (macroVars "2") []).result macroStore = .ok "2" := by
  refine ⟨compile_macroCall, ?_, ?_, ?_, by rfl, by rfl⟩
  · decide
  · decide
  · intro n hn
    obtain rfl := List.mem_singleton.mp hn
    rfl

/-- A host whose functions return nothing. -/
def quietHost : Host where
  call _ _ keywords := if keywords.isEmpty then .ok .null else .error (.escape .badCall)
  test _ _ _ _ := .error (.escape .badCall)

theorem quietHost_blind (p : Pairing) : quietHost.Blind p := by
  intro f as as' ks ks' _ hks
  simp only [quietHost]
  cases hks with
  | nil => exact .ok .null
  | cons _ _ => exact .error _

/-- The macro, its variable and the global functions. -/
def macroPart : Part := ⟨∅, {0, 1, 2, 3}, ∅, {"m", "x", "f"}⟩

theorem macroPart_closed : macroPart.Closed macroStore where
  objects_lt _ hr := hr.elim
  functions_lt r hr := by
    have hsize : macroStore.functions.size = 4 := by rfl
    rw [hsize]
    rcases hr with rfl | rfl | rfl | rfl <;> decide
  frames_lt _ hr := hr.elim
  globals n v hv := by
    have hmem : (n, v) ∈ Store.globalVars := mem_of_lookup hv
    simp only [Store.globalVars, Store.globals, List.zipIdx, List.map, List.mem_cons,
      List.not_mem_nil, or_false, Prod.mk.injEq] at hmem
    rcases hmem with ⟨-, rfl⟩ | ⟨-, rfl⟩ | ⟨-, rfl⟩
    all_goals exact .function ⟨rfl, by simp [macroPart]⟩
  slots _ hr := hr.elim
  bodies r hr := by
    rcases hr with rfl | rfl | rfl | rfl
    · exact .range
    · exact .raiseException
    · exact .newNamespace
    · rw [macroStore_function]
      exact .defined _ _ _ (by
        simp [Function.names, Stmt.namesOfList, Stmt.names, Expr.names, macroPart, Part.view])
  vars _ hr := hr.elim

/-- Neither the order of the variables matters nor a variable that shadows a global function. -/
theorem macroCall_renders_alike :
    (Template.render quietHost 5 ⟨[.output (.call (.name ⟨"f", ⟨1, 4⟩⟩) [.positional
      (.call (.name ⟨"m", ⟨1, 6⟩⟩) [])])]⟩
        (("f", .callable ⟨"f", "f"⟩) :: macroVars "1") []).result macroStore =
    (Template.render quietHost 5 ⟨[.output (.call (.name ⟨"f", ⟨1, 4⟩⟩) [.positional
      (.call (.name ⟨"m", ⟨1, 6⟩⟩) [])])]⟩
        [("range", .map []), ("x", .string "2"), ("f", .callable ⟨"f", "f"⟩)]
        (macroVars "1")).result macroStore := by
  refine render_congr macroPart_closed (fun p _ => quietHost_blind p) 5 _ ?_ ?_ ?_ ?_ ?_
  · intro n hn
    have hmem : n ∈ ["f", "m"] := hn
    simp only [List.mem_cons, List.not_mem_nil, or_false] at hmem
    rcases hmem with rfl | rfl <;> simp [macroPart]
  · decide
  · decide
  · intro n _ h hh
    have hmem : (n, h) ∈ [("f", HostValue.callable ⟨"f", "f"⟩), ("m", .value (.function 3)),
      ("x", .string "1")] := mem_of_lookup hh
    simp only [List.mem_cons, Prod.mk.injEq, List.not_mem_nil, or_false] at hmem
    rcases hmem with ⟨-, rfl⟩ | ⟨-, rfl⟩ | ⟨-, rfl⟩
    · exact .callable _
    · exact .value (.function ⟨rfl, by simp [macroPart]⟩)
    · exact .string _
  · intro n hn
    rcases hn with rfl | rfl | rfl <;> rfl


end Template
end ChatTemplate
