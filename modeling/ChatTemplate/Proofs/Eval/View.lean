import ChatTemplate.Proofs.Eval.Names
import ChatTemplate.Proofs.Eval.Pairing
import ChatTemplate.Proofs.Store.Basic
import ChatTemplate.Proofs.Store.Saturation

/-!
# Stores that a rendering cannot tell apart

Two stores are alike in a `View` if paired objects have alike members, paired functions are the same
but for paired references, and the frames that may be looked into give alike values to the names that
matter. All questions to the store have like answers in them: the values of names, the members of
objects, the truth, the equality and the spelling of values.
-/

namespace ChatTemplate

/-- What two runs share. Frames from `base` on are the runs' own; of the older ones only those in
`frames` are looked into, and in either only the names in `names` matter. -/
structure View extends Pairing where
  names : Set String
  base : FrameRef
  frames : Set FrameRef

namespace View

/-- The frame is one that may be looked into. -/
def Sees (u : View) (r : FrameRef) : Prop := u.base ≤ r ∨ r ∈ u.frames

/-- All of these names matter. -/
def Covers (u : View) (names : List String) : Prop := ∀ n ∈ names, n ∈ u.names

/-- A scope to run in: names are bound in a frame of the run's own, and looked up in frames that may
be looked into. -/
structure Admits (u : View) (s : Scope) : Prop where
  inner : u.base ≤ s.inner
  chain : ∀ r ∈ s.chain, u.Sees r

variable {u : View}

@[simp] theorem covers_nil : u.Covers [] := fun _ h => (List.not_mem_nil h).elim

@[simp] theorem covers_cons {n : String} {ns : List String} :
    u.Covers (n :: ns) ↔ n ∈ u.names ∧ u.Covers ns := List.forall_mem_cons

@[simp] theorem covers_append {ms ns : List String} :
    u.Covers (ms ++ ns) ↔ u.Covers ms ∧ u.Covers ns := List.forall_mem_append

end View

/-- The functions do the same with paired references, and look up names that matter only. -/
inductive Function.Alike (u : View) : Function → Function → Prop
  | range : Alike u .range .range
  | raiseException : Alike u .raiseException .raiseException
  | newNamespace : Alike u .newNamespace .newNamespace
  | stringMethod (s : Text) (m : StringMethod) : Alike u (.stringMethod s m) (.stringMethod s m)
  | objectMethod {r s : ObjectRef} (h : u.objects r s) (m : ObjectMethod) :
      Alike u (.objectMethod r m) (.objectMethod s m)
  | defined (name : String) (params : List Param) (body : List Stmt)
      (h : u.Covers (Function.defined name params body).names) :
      Alike u (.defined name params body) (.defined name params body)
  | caller (params : List String) (body : List Stmt) (home : Scope)
      (h : u.Covers (Function.caller params body home).names) (hs : ∀ r ∈ home.chain, u.Sees r) :
      Alike u (.caller params body home) (.caller params body home)
  | host (f : HostFunction) : Alike u (.host f) (.host f)

theorem Function.Alike.name_eq {u : View} {f g : Function} (h : f.Alike u g) : f.name = g.name := by
  cases h <;> rfl

theorem Function.Alike.mono {u u' : View} (hpairs : u.toPairing.Le u'.toPairing)
    (hnames : u.names ⊆ u'.names) (hsees : ∀ r, u.Sees r → u'.Sees r) {f g : Function}
    (h : f.Alike u g) : f.Alike u' g := by
  cases h with
  | range => exact .range
  | raiseException => exact .raiseException
  | newNamespace => exact .newNamespace
  | stringMethod s m => exact .stringMethod s m
  | objectMethod hr m => exact .objectMethod (hpairs.objects _ _ hr) m
  | defined name params body h =>
    exact .defined name params body fun n hn => hnames (h n hn)
  | caller params body home h hhome =>
    exact .caller params body home (fun n hn => hnames (h n hn)) fun r hr => hsees r (hhome r hr)
  | host f => exact .host f

/-- The stores are the same as far as the view goes. References that are yet to be given out are
paired in the order in which they will be. -/
structure Store.Alike (u : View) (st st' : Store) : Prop where
  frames_size : st.frames.size = st'.frames.size
  base_le : u.base ≤ st.frames.size
  vars : ∀ r, u.Sees r → ∀ n ∈ u.names,
    Option.Rel (Value.Alike u.toPairing) ((st.frame r).vars.lookup n) ((st'.frame r).vars.lookup n)
  tests : ∀ r, u.base ≤ r → (st.frame r).tests = [] ∧ (st'.frame r).tests = []
  fresh_objects : ∀ i, u.objects (st.objects.size + i) (st'.objects.size + i)
  fresh_functions : ∀ i, u.functions (st.functions.size + i) (st'.functions.size + i)
  objects : ∀ r s, u.objects r s →
    Slots.Related (Value.Alike u.toPairing) (st.slots r) (st'.slots s)
  functions : ∀ r s, u.functions r s → (st.function r).Alike u (st'.function s)

namespace Store.Alike
variable {u : View} {st st' : Store}

/-! ### Steps -/

theorem pushObject (h : st.Alike u st') {s t : Slots Text Value}
    (hst : Slots.Related (Value.Alike u.toPairing) s t) :
    (st.pushObject s).Alike u (st'.pushObject t) where
  frames_size := h.frames_size
  base_le := h.base_le
  vars := h.vars
  tests := h.tests
  fresh_objects i := by
    have := h.fresh_objects (i + 1)
    simp only [Store.pushObject, Array.size_push]
    rwa [Nat.add_comm i 1, ← Nat.add_assoc, ← Nat.add_assoc] at this
  fresh_functions := h.fresh_functions
  objects r r' hr := by
    have hnew := h.fresh_objects 0
    rw [Nat.add_zero, Nat.add_zero] at hnew
    unfold Store.slots Store.pushObject
    rw [Array.getElem?_push, Array.getElem?_push]
    by_cases heq : r = st.objects.size
    · have heq' : r' = st'.objects.size := u.objects_unique.2 (heq ▸ hr) hnew
      rw [if_pos heq, if_pos heq']
      exact hst
    · have hne : r' ≠ st'.objects.size := fun heq' => heq (u.objects_unique.1 (heq' ▸ hr) hnew)
      rw [if_neg heq, if_neg hne]
      exact h.objects r r' hr
  functions := h.functions

theorem pushFunction (h : st.Alike u st') {f g : Function} (hfg : f.Alike u g) :
    (st.pushFunction f).Alike u (st'.pushFunction g) where
  frames_size := h.frames_size
  base_le := h.base_le
  vars := h.vars
  tests := h.tests
  fresh_objects := h.fresh_objects
  fresh_functions i := by
    have := h.fresh_functions (i + 1)
    simp only [Store.pushFunction, Array.size_push]
    rwa [Nat.add_comm i 1, ← Nat.add_assoc, ← Nat.add_assoc] at this
  objects := h.objects
  functions r r' hr := by
    have hnew := h.fresh_functions 0
    rw [Nat.add_zero, Nat.add_zero] at hnew
    unfold Store.function Store.pushFunction
    rw [Array.getElem?_push, Array.getElem?_push]
    by_cases heq : r = st.functions.size
    · have heq' : r' = st'.functions.size := u.functions_unique.2 (heq ▸ hr) hnew
      rw [if_pos heq, if_pos heq']
      exact hfg
    · have hne : r' ≠ st'.functions.size :=
        fun heq' => heq (u.functions_unique.1 (heq' ▸ hr) hnew)
      rw [if_neg heq, if_neg hne]
      exact h.functions r r' hr

theorem frame_pushFrame (st : Store) (vars : Slots String Value) (r : FrameRef) :
    (st.pushFrame vars).frame r = if r = st.frames.size then ⟨vars, []⟩ else st.frame r := by
  unfold Store.frame Store.pushFrame
  rw [Array.getElem?_push]
  split <;> rfl

theorem pushFrameOf (h : st.Alike u st') {vars : Slots String Value}
    (hvars : ∀ n ∈ u.names,
      Option.Rel (Value.Alike u.toPairing) (vars.lookup n) (vars.lookup n)) :
    (st.pushFrame vars).Alike u (st'.pushFrame vars) where
  frames_size := by
    simp only [Store.pushFrame, Array.size_push, h.frames_size]
  base_le := by
    simp only [Store.pushFrame, Array.size_push]
    exact Nat.le_succ_of_le h.base_le
  vars r hr n hn := by
    rw [frame_pushFrame, frame_pushFrame, h.frames_size]
    split
    · exact hvars n hn
    · exact h.vars r hr n hn
  tests r hr := by
    rw [frame_pushFrame, frame_pushFrame, h.frames_size]
    split
    · exact ⟨rfl, rfl⟩
    · exact h.tests r hr
  fresh_objects := h.fresh_objects
  fresh_functions := h.fresh_functions
  objects := h.objects
  functions := h.functions

/-- A new frame without variables. -/
theorem pushFrame (h : st.Alike u st') : (st.pushFrame []).Alike u (st'.pushFrame []) :=
  h.pushFrameOf fun _ _ => .none

theorem frame_bind (st : Store) (r r' : FrameRef) (name : String) (v : Value) :
    (st.bind r name v).frame r' =
      if r = r' ∧ r < st.frames.size then
        { st.frame r' with vars := (st.frame r').vars.put name v }
      else st.frame r' := by
  unfold Store.frame Store.bind
  rw [Array.getElem?_modify]
  by_cases heq : r = r'
  · subst heq
    by_cases hlt : r < st.frames.size
    · simp [hlt]
    · simp [hlt]
  · simp [heq]

theorem bind (h : st.Alike u st') (r : FrameRef) (name : String) {v w : Value}
    (hvw : v.Alike u.toPairing w) : (st.bind r name v).Alike u (st'.bind r name w) where
  frames_size := by
    simp only [Store.bind, Array.size_modify, h.frames_size]
  base_le := by
    simp only [Store.bind, Array.size_modify]
    exact h.base_le
  vars r' hr' n hn := by
    rw [frame_bind, frame_bind, h.frames_size]
    split
    · by_cases heq : n = name
      · subst heq
        rw [Slots.lookup_put_self, Slots.lookup_put_self]
        exact .some hvw
      · rw [Slots.lookup_put_of_ne _ _ heq, Slots.lookup_put_of_ne _ _ heq]
        exact h.vars r' hr' n hn
    · exact h.vars r' hr' n hn
  tests r' hr' := by
    rw [frame_bind, frame_bind, h.frames_size]
    split <;> exact h.tests r' hr'
  fresh_objects := h.fresh_objects
  fresh_functions := h.fresh_functions
  objects := h.objects
  functions := h.functions

theorem size_le_iff (h : st.Alike u st') {r s : ObjectRef} (hrs : u.objects r s) :
    st.objects.size ≤ r ↔ st'.objects.size ≤ s := by
  constructor
  · intro hr
    have := h.fresh_objects (r - st.objects.size)
    rw [Nat.add_sub_cancel' hr] at this
    rw [u.objects_unique.2 hrs this]
    exact Nat.le_add_right ..
  · intro hs
    have := h.fresh_objects (s - st'.objects.size)
    rw [Nat.add_sub_cancel' hs] at this
    rw [u.objects_unique.1 hrs this]
    exact Nat.le_add_right ..

theorem putSlot (h : st.Alike u st') {r s : ObjectRef} (hrs : u.objects r s) (name : Text)
    {v w : Value} (hvw : v.Alike u.toPairing w) :
    (st.putSlot r name v).Alike u (st'.putSlot s name w) where
  frames_size := h.frames_size
  base_le := h.base_le
  vars := h.vars
  tests := h.tests
  fresh_objects i := by
    simp only [Store.putSlot, Array.size_modify]
    exact h.fresh_objects i
  fresh_functions := h.fresh_functions
  objects r' s' hr' := by
    have hsame : r = r' ↔ s = s' :=
      ⟨fun heq => u.objects_unique.2 hrs (heq ▸ hr'), fun heq => u.objects_unique.1 hrs (heq ▸ hr')⟩
    have hlt : r < st.objects.size ↔ s < st'.objects.size := by
      rw [← Nat.not_le, ← Nat.not_le, h.size_le_iff hrs]
    rw [slots_putSlot_eq, slots_putSlot_eq]
    by_cases hput : r = r' ∧ r < st.objects.size
    · rw [if_pos hput, if_pos ⟨hsame.mp hput.1, hlt.mp hput.2⟩]
      exact (h.objects r' s' hr').put name hvw
    · rw [if_neg hput, if_neg fun hput' => hput ⟨hsame.mpr hput'.1, hlt.mpr hput'.2⟩]
      exact h.objects r' s' hr'
  functions := h.functions

/-! ### Questions -/

theorem lookup (h : st.Alike u st') {s : Scope} (hs : u.Admits s) {n : String} (hn : n ∈ u.names) :
    (st.lookup s n).Alike u.toPairing (st'.lookup s n) := by
  have hfind : ∀ chain : List FrameRef, (∀ r ∈ chain, u.Sees r) →
      Option.Rel (Value.Alike u.toPairing) (st.lookup? chain n) (st'.lookup? chain n) := by
    intro chain hchain
    induction chain with
    | nil => exact .none
    | cons r rest ih =>
      simp only [Store.lookup?, List.findSome?_cons]
      rcases optionRel_cases (h.vars r (hchain r List.mem_cons_self) n hn) with
        ⟨hv, hw⟩ | ⟨v, w, hv, hw, hvw⟩
      · rw [hv, hw]
        exact ih fun r hr => hchain r (List.mem_cons_of_mem _ hr)
      · rw [hv, hw]
        exact .some hvw
  exact .getD (hfind s.chain hs.chain) .undefined

theorem truthy (h : st.Alike u st') {v w : Value} (hvw : v.Alike u.toPairing w) :
    st.truthy v = st'.truthy w := by
  cases hvw with
  | array hvs =>
    simp only [Store.truthy, forall₂_isEmpty hvs]
  | object hrs =>
    simp only [Store.truthy, (h.objects _ _ hrs).isEmpty_eq]
  | _ => rfl

/-! ### Equality -/

section Equality
variable {f g : ObjectRef → ObjectRef → Option Bool}

omit u in
theorem allPass_congr {α β : Type} {R : α → β → Prop} {q : α → Option Bool} {q' : β → Option Bool}
    (hq : ∀ a b, R a b → q a = q' b) {as : List α} {bs : List β} (h : List.Forall₂ R as bs) :
    allPass q as = allPass q' bs := by
  induction h with
  | nil => rfl
  | cons hab _ ih => simp only [allPass, hq _ _ hab, ih]

mutual

theorem equalWith_congr (hfg : ∀ r r' s s', u.objects r r' → u.objects s s' → f r s = g r' s')
    {v v' w w' : Value} (hv : v.Alike u.toPairing v') (hw : w.Alike u.toPairing w') :
    equalWith f v w = equalWith g v' w' := by
  cases hv with
  | array hvs =>
    cases hw with
    | array hws => simp only [equalWith, hvs.length_eq, hws.length_eq, equalItems_congr hfg hvs hws]
    | _ => rfl
  | object hr =>
    cases hw with
    | object hs => exact hfg _ _ _ _ hr hs
    | _ => rfl
  | function hr =>
    cases hw with
    | function hs =>
      simp only [equalWith, Option.some.injEq, Bool.beq_eq_decide_eq, decide_eq_decide]
      exact ⟨fun heq => u.functions_unique.2 hr (heq ▸ hs),
        fun heq => u.functions_unique.1 hr (heq ▸ hs)⟩
    | _ => rfl
  | _ => cases hw <;> rfl

theorem equalItems_congr (hfg : ∀ r r' s s', u.objects r r' → u.objects s s' → f r s = g r' s')
    {vs vs' ws ws' : List Value} (hvs : List.Forall₂ (Value.Alike u.toPairing) vs vs')
    (hws : List.Forall₂ (Value.Alike u.toPairing) ws ws') :
    equalItems f vs ws = equalItems g vs' ws' := by
  cases hvs with
  | nil => rfl
  | cons hv hvs =>
    cases hws with
    | nil => rfl
    | cons hw hws =>
      simp only [equalItems, equalWith_congr hfg hv hw, equalItems_congr hfg hvs hws]

end

theorem namesWithin_congr {a b a' b' : Slots Text Value}
    (ha : Slots.Related (Value.Alike u.toPairing) a a')
    (hb : Slots.Related (Value.Alike u.toPairing) b b') :
    (a.all fun (k, _) => (b.lookup k).isSome) = a'.all fun (k, _) => (b'.lookup k).isSome := by
  induction ha with
  | nil => rfl
  | @cons x y _ _ hxy _ ih =>
    have hsome : (b.lookup x.1).isSome = (b'.lookup y.1).isSome := by
      rw [hxy.1]
      exact optionRel_isSome (hb.lookup y.1)
    simp only [List.all_cons, hsome, ih]

theorem sameNames_congr {a b a' b' : Slots Text Value}
    (ha : Slots.Related (Value.Alike u.toPairing) a a')
    (hb : Slots.Related (Value.Alike u.toPairing) b b') : sameNames a b = sameNames a' b' := by
  simp only [sameNames, ha.length_eq, hb.length_eq, namesWithin_congr ha hb]

theorem equalObjects (h : st.Alike u st') (n : ℕ) (r r' s s' : ObjectRef) (hr : u.objects r r')
    (hs : u.objects s s') : st.equalObjects n r s = st'.equalObjects n r' s' := by
  induction n generalizing r r' s s' with
  | zero => rfl
  | succ n ih =>
    have ha := h.objects r r' hr
    have hb := h.objects s s' hs
    simp only [Store.equalObjects, sameNames_congr ha hb]
    split
    · refine allPass_congr ?_ ha
      rintro ⟨k, v⟩ ⟨k', v'⟩ ⟨rfl, hvv'⟩
      exact equalWith_congr ih hvv' (.getD (hb.lookup k) .undefined)
    · rfl

theorem equal? (h : st.Alike u st') {v v' w w' : Value} (hv : v.Alike u.toPairing v')
    (hw : w.Alike u.toPairing w') : st.equal? v w = st'.equal? v' w' := by
  let n := max (st.objects.size * st.objects.size) (st'.objects.size * st'.objects.size) + 1
  unfold Store.equal?
  rw [← st.equalObjects_eq_of_le (Nat.succ_le_succ (Nat.le_max_left ..)),
    ← st'.equalObjects_eq_of_le (Nat.succ_le_succ (Nat.le_max_right ..))]
  exact equalWith_congr (h.equalObjects n) hv hw

theorem holds? (h : st.Alike u st') {vs vs' : List Value} {v v' : Value}
    (hvs : List.Forall₂ (Value.Alike u.toPairing) vs vs') (hv : v.Alike u.toPairing v') :
    st.holds? vs v = st'.holds? vs' v' := by
  unfold Store.holds?
  rw [allPass_congr (fun w w' hw => by rw [h.equal? hw hv]) hvs]

end Equality

/-! ### Spelling out -/

section Data
variable {f g : ObjectRef → Option Datum}

mutual

theorem datumWith (h : st.Alike u st')
    (hfg : ∀ r s, u.objects r s → Option.Rel (Datum.Alike u.toPairing) (f r) (g s))
    {v w : Value} (hvw : v.Alike u.toPairing w) :
    Option.Rel (Datum.Alike u.toPairing) (st.datumWith f v) (st'.datumWith g w) := by
  cases hvw with
  | undefined => exact .some .undefined
  | null => exact .some .null
  | bool b => exact .some (.bool b)
  | int i => exact .some (.int i)
  | float f => exact .some (.float f)
  | string s => exact .some (.string s)
  | array hvs =>
    simp only [Store.datumWith]
    rcases optionRel_cases (dataWith h hfg hvs) with ⟨hd, hd'⟩ | ⟨ds, ds', hd, hd', hds⟩
    · rw [hd, hd']
      exact .none
    · rw [hd, hd']
      exact .some (.array hds)
  | object hrs => exact hfg _ _ hrs
  | function hrs =>
    simp only [Store.datumWith, (h.functions _ _ hrs).name_eq]
    exact .some (.function hrs _)

theorem dataWith (h : st.Alike u st')
    (hfg : ∀ r s, u.objects r s → Option.Rel (Datum.Alike u.toPairing) (f r) (g s))
    {vs ws : List Value} (hvs : List.Forall₂ (Value.Alike u.toPairing) vs ws) :
    Option.Rel (List.Forall₂ (Datum.Alike u.toPairing)) (st.dataWith f vs) (st'.dataWith g ws) := by
  cases hvs with
  | nil => exact .some .nil
  | cons hv hvs =>
    simp only [Store.dataWith]
    rcases optionRel_cases (datumWith h hfg hv) with ⟨hd, hd'⟩ | ⟨d, d', hd, hd', hdd'⟩
    · rw [hd, hd']
      exact .none
    rcases optionRel_cases (dataWith h hfg hvs) with ⟨hds, hds'⟩ | ⟨ds, ds', hds, hds', hdsds'⟩
    · rw [hd, hd', hds, hds']
      exact .none
    · rw [hd, hd', hds, hds']
      exact .some (.cons hdd' hdsds')

end

theorem objectWithin (h : st.Alike u st') (n : ℕ) (r s : ObjectRef) (hrs : u.objects r s) :
    Option.Rel (Datum.Alike u.toPairing) (st.objectWithin n r) (st'.objectWithin n s) := by
  induction n generalizing r s with
  | zero => exact .none
  | succ n ih =>
    have hslots := h.objects r s hrs
    simp only [Store.objectWithin]
    rcases optionRel_cases (h.dataWith ih hslots.values) with
      ⟨hd, hd'⟩ | ⟨ds, ds', hd, hd', hds⟩
    · rw [hd, hd']
      exact .none
    · rw [hd, hd', ← hslots.names_eq]
      exact .some (.object (.zip _ hds))

theorem datum? (h : st.Alike u st') {v w : Value} (hvw : v.Alike u.toPairing w) :
    Option.Rel (Datum.Alike u.toPairing) (st.datum? v) (st'.datum? w) := by
  let n := max st.objects.size st'.objects.size + 1
  unfold Store.datum?
  rw [← st.objectWithin_eq_of_le (Nat.succ_le_succ (Nat.le_max_left ..)),
    ← st'.objectWithin_eq_of_le (Nat.succ_le_succ (Nat.le_max_right ..))]
  exact h.datumWith (h.objectWithin n) hvw

end Data

end Store.Alike
end ChatTemplate
