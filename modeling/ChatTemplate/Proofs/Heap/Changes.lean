import ChatTemplate.Proofs.Eval.Assignments
import ChatTemplate.Proofs.Heap.Evaluation
import Mathlib.Data.List.Induction

/-!
# What evaluation changes

Whatever an evaluation in a heap does, arrays keep their lists and these their items, lists and
dictionaries that belong to a call or a filter stay as they are, and objects become what the
assignments to their members make of them (`Heap.Keeps`). Operators, members, slices and filters,
and functions that are no part of a template, assign nothing.
-/

namespace ChatTemplate.Heap
variable {α β : Type} {m : Mark} {w : Bool} {h h' : Heap}

/-- What was there is there, but that the assignments are made to objects. -/
structure Keeps (h : Heap) (as : List MemberAssignment) (h' : Heap) : Prop where
  assignments : h'.assignments = h.assignments ++ as
  arrays : ∀ r < h.arrays.size, h'.arrays[r]? = h.arrays[r]? ∧ h'.items r = h.items r
  objects : ∀ r < h.objects.size,
    h'.objects[r]? = h.objects[r]? ∧ h'.slots r = (h.slots r).afterAssignments r as
  unassigned : ∀ r < h.objects.size, (∀ a ∈ as, a.object ≠ r) → h'.slots r = h.slots r
  lists : ∀ l < h.lists.size, h'.lists[l]? = h.lists[l]?
  dicts : ∀ d < h.dicts.size, (∀ r : ObjectRef, h.objects[r]? ≠ some d) →
    h'.dicts[d]? = h.dicts[d]?

theorem afterAssignments_of_forall_ne {r : ObjectRef} {as : List MemberAssignment}
    (hne : ∀ a ∈ as, a.object ≠ r) (s : Slots Text Item) : s.afterAssignments r as = s := by
  induction as generalizing s with
  | nil => rfl
  | cons a as ih =>
    have ha : a.object ≠ r := hne a List.mem_cons_self
    rw [Slots.afterAssignments, List.foldl_cons, if_neg ha]
    exact ih (fun b hb => hne b (List.mem_cons_of_mem a hb)) s

theorem Step.keeps (s : h.Step (h.mark w) h') : ∃ as, h.Keeps as h' ∧ (w = false → as = []) := by
  obtain ⟨as, hassignments, hnone, hdict⟩ := s.assigned
  have hobjects (r : ObjectRef) (hr : r < h.objects.size) :
      h'.objects[r]? = h.objects[r]? ∧ h'.slots r = (h.slots r).afterAssignments r as := by
    have hsome := Array.getElem?_eq_getElem hr
    have hsome' := s.objects r _ hsome
    refine ⟨hsome'.trans hsome.symm, ?_⟩
    simp only [slots, hsome, hsome', Option.map_some, Option.getD_some]
    exact hdict r _ hsome
  refine ⟨as, ⟨hassignments, fun r hr => ?_, hobjects, fun r hr hne => ?_, s.lists, s.dicts⟩, hnone⟩
  · have hsome := Array.getElem?_eq_getElem hr
    exact ⟨(s.arrays r _ hsome).1.trans hsome.symm, s.items_eq hr⟩
  · rw [(hobjects r hr).2, afterAssignments_of_forall_ne hne]

/-- From the heap `h`, the run changes objects by assignments only, whether it answers or fails. -/
def ChangesByAssignment (h : Heap) (x : Run α) : Prop :=
  ∃ as, h.Keeps as (x.after h) ∧ (x.after h).Sound

/-- From the heap `h`, the run changes nothing that was there, whether it answers or fails. -/
def Unaltered (h : Heap) (x : Run α) : Prop := h.Keeps [] (x.after h) ∧ (x.after h).Sound

namespace Follows
variable {R : Heap → α → β → Prop} {x : Run α} {y : Eval β}

theorem changesByAssignment (hxy : Follows true R h x y) (sound : h.Sound) :
    h.ChangesByAssignment x := by
  obtain ⟨step, -, -⟩ := hxy sound
  obtain ⟨as, hkeeps, -⟩ := step.keeps
  exact ⟨as, hkeeps, step.sound'⟩

theorem unaltered (hxy : Follows false R h x y) (sound : h.Sound) : h.Unaltered x := by
  obtain ⟨step, -, -⟩ := hxy sound
  obtain ⟨as, hkeeps, hnone⟩ := step.keeps
  obtain rfl := hnone rfl
  exact ⟨hkeeps, step.sound'⟩

end Follows

/-! ### Assignments -/

/-- Exactly one member of one object changes: the others keep their values, all of them their
places, and a new one goes to the end. Whoever looks the member up finds the value. -/
structure ChangesOneMember (h : Heap) (r : ObjectRef) (name : Text) (x : Item) (h' : Heap) :
    Prop where
  keeps : h.Keeps [⟨r, name, x⟩] h'
  others : ∀ s ≠ r, h'.slots s = h.slots s
  names : (h'.slots r).names =
    if name ∈ (h.slots r).names then (h.slots r).names else (h.slots r).names ++ [name]
  value : (h'.slots r).lookup name = some x
  members : ∀ k ≠ name, (h'.slots r).lookup k = (h.slots r).lookup k
  found : (lookupMember (.object r) (.string name)).result h' = .ok x

theorem result_lookupMember {r : ObjectRef} {name : Text} {x : Item}
    (hx : (h.slots r).lookup name = some x) :
    (lookupMember (.object r) (.string name)).result h = .ok x := by
  have hget : (slotsOf r).result h = .ok (h.slots r) := rfl
  have hafter : (slotsOf r).after h = h := rfl
  unfold lookupMember
  rw [Run.result_bind, hget, hafter]
  dsimp only
  rw [hx]
  rfl

theorem Sound.changesOneMember (sound : h.Sound) {r : ObjectRef} (hr : r < h.objects.size)
    (name : Text) {x : Item} (hx : x.Below h.arrays.size) :
    h.ChangesOneMember r name x ((putSlot r name x).after h) := by
  have hafter := after_putSlot (Array.getElem?_eq_getElem hr) name x
  obtain ⟨as, hkeeps, -⟩ := (sound.step_putSlot r name hx).keeps
  generalize (putSlot r name x).after h = h' at hafter hkeeps
  obtain rfl : [⟨r, name, x⟩] = as :=
    List.append_cancel_left ((congrArg assignments hafter).symm.trans hkeeps.assignments)
  have hslots : h'.slots r = (h.slots r).put name x := (hkeeps.objects r hr).2.trans (if_pos rfl)
  have hvalue : (h'.slots r).lookup name = some x := by rw [hslots, Slots.lookup_put_self]
  refine ⟨hkeeps, fun s hs => ?_, ?_, hvalue, fun k hk => ?_, result_lookupMember hvalue⟩
  · by_cases hlt : s < h.objects.size
    · refine hkeeps.unassigned s hlt fun a ha => ?_
      obtain rfl := List.mem_singleton.mp ha
      exact hs.symm
    · have hnone : h.objects[s]? = none := Array.getElem?_eq_none (Nat.not_lt.mp hlt)
      have hnone' : h'.objects[s]? = none := by rw [hafter, hnone]
      rw [slots, slots, hnone, hnone', Option.map_none, Option.map_none]
  · rw [hslots, Slots.names_put]
  · rw [hslots, Slots.lookup_put_of_ne _ _ hk]

/-- `x` is assigned to a member of what `object` answers, and that is all that happens after it; or
nothing does, where it answers no object or fails. -/
def AssignsMember (h : Heap) (object : Run Item) (name : Text) (x : Item) (y : Run Unit) : Prop :=
  (∃ f, y.result h = .error f ∧ y.after h = object.after h) ∨
    ∃ r, object.result h = .ok (.object r) ∧ y.result h = .ok () ∧
      (r < (object.after h).objects.size →
        (object.after h).ChangesOneMember r name x (y.after h))

section
variable {run : Interpreter} {ev : Evaluator} {x : Item}

theorem assignsMember (hrun : run.Mirrors ev) (sound : h.Sound) (hx : x.Below h.arrays.size)
    (scope : Scope) (e : Expr) (word : Word) :
    h.AssignsMember (run.expr e scope) word.text x (assign run scope (.member e word) x) := by
  obtain ⟨step, -, -⟩ := hrun.expr h e scope sound
  have hx' := ((shows_value hx).mono step).below
  have hassign : assign run scope (.member e word) x = run.expr e scope >>= _ := rfl
  rw [hassign, AssignsMember, Run.result_bind, Run.after_bind]
  cases hresult : (run.expr e scope).result h with
  | error f => exact .inl ⟨f, rfl, rfl⟩
  | ok o =>
    cases o with
    | object r => exact .inr ⟨r, rfl, rfl, fun hr => step.sound'.changesOneMember hr _ hx'⟩
    | _ => exact .inl ⟨_, rfl, rfl⟩

/-- Values do not change where the target is no member. -/
theorem unaltered_assign (run : Interpreter) (sound : h.Sound) (hx : x.Below h.arrays.size)
    (scope : Scope) {target : Expr} (htarget : ∀ e word, target ≠ .member e word) :
    h.Unaltered (assign run scope target x) := by
  have hassign : Follows false Same h (assign run scope target x)
      (Eval.assign (.within .none 0) scope target (h.value x)) := by
    unfold assign Eval.assign
    cases target.target? with
    | some t =>
      refine Follows.bind (Mirrors.look (Eval.Looks.binder t)) ?_
      rintro h₁ b _ s₁ rfl
      exact Mirrors.bindTo scope b ((shows_value hx).mono s₁)
    | none =>
      cases target with
      | member e word => exact absurd rfl (htarget e word)
      | _ => exact .fail _
  exact hassign.unaltered sound

/-- A call of what is no function of a template. -/
theorem unaltered_callFunction (run : Interpreter) (host : Host) (sound : h.Sound) {c : Call}
    {a : Args} (hc : h.ShowsCall c a) (scope : Scope) {f : Function}
    (hdefined : ∀ name params body, f ≠ .defined name params body)
    (hcaller : ∀ params body home, f ≠ .caller params body home) :
    h.Unaltered (callFunction run host f c scope) := by
  cases f with
  | range => exact (Mirrors.callRange hc).unaltered sound
  | raiseException => exact (Mirrors.callRaise hc).unaltered sound
  | newNamespace => exact (Mirrors.callNamespace hc).unaltered sound
  | stringMethod s m => exact (Mirrors.callStringMethod s m hc).unaltered sound
  | objectMethod r m => exact (Mirrors.callObjectMethod r m hc).unaltered sound
  | defined name params body => exact absurd rfl (hdefined name params body)
  | caller params body home => exact absurd rfl (hcaller params body home)
  | host f => exact (Mirrors.callHost host f hc).unaltered sound

end

/-! ### Every store is seen -/

theorem Sound.exists_showsSlots {κ : Type} (sound : h.Sound) (t : Slots κ Value) :
    ∃ (h' : Heap) (s : Slots κ Item), h'.Sound ∧ h'.store = h.store ∧ h'.ShowsSlots s t := by
  obtain ⟨step, hstore, houtcome⟩ := Mirrors.freshItems (w := false) (t.map Prod.snd) sound
  rcases houtcome.answers with ⟨f, -, hf⟩ | ⟨xs, vs, -, hvs, hxs⟩
  · cases hf
  · cases hvs
    have hzip : t = t.names.zip (t.map Prod.snd) := List.zip_of_prod rfl rfl
    have hshows := forall₂_zip t.names hxs
    rw [← hzip] at hshows
    exact ⟨_, t.names.zip xs, step.sound', hstore, hshows⟩

theorem Sound.exists_pushObject (sound : h.Sound) (t : Slots Text Value) :
    ∃ h' : Heap, h'.Sound ∧ h'.store = h.store.pushObject t := by
  obtain ⟨h₁, s, sound₁, hstore₁, hs⟩ := sound.exists_showsSlots t
  obtain ⟨step, hstore, -⟩ := Mirrors.objectOf (w := false) hs sound₁
  exact ⟨_, step.sound', hstore.trans (congrArg (Store.pushObject · t) hstore₁)⟩

theorem Sound.exists_pushFrame (sound : h.Sound) (f : Frame) :
    ∃ h' : Heap, h'.Sound ∧
      h'.store = { h.store with frames := h.store.frames.push f } := by
  obtain ⟨h₁, s, sound₁, hstore₁, hs⟩ := sound.exists_showsSlots f.vars
  refine ⟨{ h₁ with frames := h₁.frames.push ⟨s, f.tests⟩ },
    ⟨sound₁.arrays, sound₁.objects, sound₁.distinct, fun g hg => ?_⟩, ?_⟩
  · rcases Array.mem_push.mp hg with hg | rfl
    · exact sound₁.frames g hg
    · exact hs.below
  · rw [← hstore₁]
    have hvalue : Heap.value { h₁ with frames := h₁.frames.push ⟨s, f.tests⟩ } = h₁.value :=
      value_congr rfl rfl
    simp only [Heap.store, Array.map_push, hvalue, hs.mapValues_eq]
    rfl

theorem exists_store_eq (st : Store) : ∃ h : Heap, h.Sound ∧ h.store = st := by
  have hobjects (ts : List (Slots Text Value)) :
      ∃ h : Heap, h.Sound ∧ h.store = ⟨#[], ts.toArray, st.functions⟩ := by
    induction ts using List.reverseRecOn with
    | nil =>
      refine ⟨⟨#[], #[], #[], #[], #[], st.functions, []⟩, ⟨nofun, nofun, nofun, nofun⟩, ?_⟩
      simp only [store, Array.map_empty]
    | append_singleton ts t ih =>
      obtain ⟨h, sound, hstore⟩ := ih
      obtain ⟨h', sound', hstore'⟩ := sound.exists_pushObject t
      refine ⟨h', sound', ?_⟩
      rw [hstore', hstore, ← List.push_toArray]
      rfl
  have hframes (fs : List Frame) :
      ∃ h : Heap, h.Sound ∧ h.store = ⟨fs.toArray, st.objects, st.functions⟩ := by
    induction fs using List.reverseRecOn with
    | nil => exact hobjects st.objects.toList
    | append_singleton fs f ih =>
      obtain ⟨h, sound, hstore⟩ := ih
      obtain ⟨h', sound', hstore'⟩ := sound.exists_pushFrame f
      refine ⟨h', sound', ?_⟩
      rw [hstore', hstore, ← List.push_toArray]
  exact hframes st.frames.toList

/-! ### The interpreter -/

/-- What an interpreter changes in the heap `h`. An expression, a statement, a program and a call
change objects, by assigning to members of them; a completed assignment to a member changes that
one. Nothing else that evaluates operands changes what is there. -/
structure Interpreter.ChangesByAssignment (run : Interpreter) (host : Host) (h : Heap) : Prop where
  expr : ∀ e scope, h.ChangesByAssignment (run.expr e scope)
  stmt : ∀ s scope, h.ChangesByAssignment (run.stmt s scope)
  program : ∀ (p : Program) scope, h.ChangesByAssignment (closedBlock run scope p)
  args : ∀ scope as, h.ChangesByAssignment (args run scope as)
  call : ∀ f c a scope, h.ShowsCall c a → h.ChangesByAssignment (callFunction run host f c scope)
  member : ∀ scope e word x, x.Below h.arrays.size →
    h.AssignsMember (run.expr e scope) word.text x (assign run scope (.member e word) x)
  names : ∀ scope target x, x.Below h.arrays.size → (∀ e word, target ≠ .member e word) →
    h.Unaltered (assign run scope target x)
  operator : ∀ op x y, x.Below h.arrays.size → y.Below h.arrays.size → h.Unaltered (binary op x y)
  lookup : ∀ x y, x.Below h.arrays.size → y.Below h.arrays.size → h.Unaltered (lookupMember x y)
  slice : ∀ x start stop step, x.Below h.arrays.size → h.Unaltered (slice x start stop step)
  rounds : ∀ x, x.Below h.arrays.size → h.Unaltered (loopItems x)
  filter : ∀ scope name c a x, h.ShowsCall c a → x.Below h.arrays.size →
    h.Unaltered (applyFilter host scope a.positional.length name c x)
  builtin : ∀ f c a scope, h.ShowsCall c a → (∀ name params body, f ≠ .defined name params body) →
    (∀ params body home, f ≠ .caller params body home) →
    h.Unaltered (callFunction run host f c scope)

theorem Interpreter.Mirrors.changesByAssignment {run : Interpreter} {ev : Evaluator}
    (hrun : run.Mirrors ev) (host : Host) (sound : h.Sound) : run.ChangesByAssignment host h where
  expr e scope := (hrun.expr h e scope).changesByAssignment sound
  stmt s scope := (hrun.stmt h s scope).changesByAssignment sound
  program p scope := (Heap.Mirrors.closedBlock hrun scope p).changesByAssignment sound
  args scope as := (Heap.Mirrors.args hrun scope as).changesByAssignment sound
  call f _ _ scope hc := (Heap.Mirrors.callFunction hrun host f scope hc).changesByAssignment sound
  member scope e word _ hx := assignsMember hrun sound hx scope e word
  names scope _ _ hx htarget := unaltered_assign run sound hx scope htarget
  operator op _ _ hx hy :=
    (Heap.Mirrors.binary op (shows_value hx) (shows_value hy)).unaltered sound
  lookup _ _ hx hy := (Heap.Mirrors.lookupMember (shows_value hx) (shows_value hy)).unaltered sound
  slice _ start stop step hx :=
    (Heap.Mirrors.slice (shows_value hx) start stop step).unaltered sound
  rounds _ hx := (Heap.Mirrors.loopItems (shows_value hx)).unaltered sound
  filter scope name _ _ _ hc hx :=
    (Heap.Mirrors.applyFilter host scope name (Nat.le_refl _) (shows_value hx) hc).unaltered sound
  builtin _ _ _ scope hc := unaltered_callFunction run host sound hc scope

/-- **Only assignments to members change values.** The interpreter does in a heap what the evaluator
does in the store that the heap looks like, and every store is what a sound heap looks like. From
every sound heap, whether it answers or fails, it leaves arrays and objects as they are, but for
assignments to members of objects, each of which changes one member of one object for all that refer
to it. In the store, these are the assignments that the evaluator makes. -/
theorem Interpreter.values_change_by_assignment (host : Host) (n : Nat) :
    (within host n).Mirrors (Evaluator.within host n) ∧
      (∀ h (p : Program) scope, Follows true Same h (closedBlock (within host n) scope p)
        (Eval.closedBlock (Evaluator.within host n) scope p)) ∧
      (∀ st : Store, ∃ h : Heap, h.Sound ∧ h.store = st) ∧
      (∀ h : Heap, h.Sound → (within host n).ChangesByAssignment host h) ∧
      Evaluator.assigning Eval.performed host n = Evaluator.within host n ∧
      (∀ e scope, Eval.ChangesByAssignment fun put =>
        (Evaluator.assigning put host n).expr e scope) ∧
      (∀ s scope, Eval.ChangesByAssignment fun put =>
        (Evaluator.assigning put host n).stmt s scope) ∧
      ∀ (p : Program) scope, Eval.ChangesByAssignment fun put =>
        Eval.closedBlock (Evaluator.assigning put host n) scope p := by
  have hrun := within_mirrors host n
  obtain ⟨hsame, hexpr, hstmt, hprogram, -⟩ := Evaluator.objects_change_by_assignment host n
  exact ⟨hrun, fun _ p scope => Heap.Mirrors.closedBlock hrun scope p, exists_store_eq,
    fun _ sound => hrun.changesByAssignment host sound, hsame, hexpr, hstmt, hprogram⟩

/-- An array that a name and a member of an object refer to. -/
def shared : Heap where
  lists := #[[.int 2, .int 1]]
  dicts := #[[("a", .array 0)]]
  arrays := #[0]
  objects := #[0]
  frames := #[⟨[("x", .array 0), ("o", .object 0)], []⟩]
  functions := #[]
  assignments := []

theorem shared_sound : shared.Sound where
  arrays
    | 0, _, rfl => ⟨[.int 2, .int 1], rfl, by simp [Item.Below]⟩
  objects
    | 0, _, rfl => ⟨_, rfl, by simp [Item.Below, shared]⟩
  distinct
    | 0, 0, _, _, _ => rfl
  frames := by
    simp only [shared, Array.mem_singleton, forall_eq, List.forall_mem_cons]
    exact ⟨fun | 0, rfl => by decide, nofun, nofun⟩

/-- `set o.b = x | reverse` -/
def setReversed : Stmt :=
  let word (text : String) : Word := ⟨text, default⟩
  .assign (.member (.name (word "o")) (word "b"))
    (.filter (.name (word "x")) (.name (word "reverse")))

/-- An array that is turned around for a member of an object stays as it is. -/
theorem Interpreter.reverse_leaves_items :
    let h := ((within .none 3).stmt setReversed ⟨0, []⟩).after shared
    shared.Sound ∧ shared.Keeps [⟨0, "b", .array 1⟩] h ∧ h.items 0 = [.int 2, .int 1] ∧
      h.items 1 = [.int 1, .int 2] ∧
      h.slots 0 = (shared.slots 0).put (.ofString "b") (.array 1) := by
  obtain ⟨-, -, -, hchanges, -⟩ := values_change_by_assignment .none 3
  obtain ⟨as, hkeeps, -⟩ := (hchanges shared shared_sound).stmt setReversed ⟨0, []⟩
  have hassigned : (((within .none 3).stmt setReversed ⟨0, []⟩).after shared).assignments =
      [⟨0, "b", .array 1⟩] := by rfl
  obtain rfl : as = [⟨0, "b", .array 1⟩] := hkeeps.assignments.symm.trans hassigned
  exact ⟨shared_sound, hkeeps, (hkeeps.arrays 0 (by decide)).2, by rfl,
    (hkeeps.objects 0 (by decide)).2⟩

end ChatTemplate.Heap
