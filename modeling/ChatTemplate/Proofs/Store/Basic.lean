import ChatTemplate.Datum
import ChatTemplate.Store.Equality

/-!
# Slots and stores

What all values in slots satisfy, which of them is found under a name, what the store answers where
nothing is kept, and what it answers after an assignment to a member. Stores of the same objects
answer alike.
-/

namespace ChatTemplate

/-! ### Slots -/

theorem mem_of_lookup {κ α : Type} [BEq κ] [LawfulBEq κ] {s : Slots κ α} {n : κ} {x : α}
    (hn : s.lookup n = some x) : (n, x) ∈ s := by
  obtain ⟨l, l', rfl, -⟩ := List.lookup_eq_some_iff.mp hn
  exact List.mem_append_right l List.mem_cons_self

theorem holds_getD {α : Type} {R : α → Prop} {x : Option α} {y : α} (hx : ∀ a, x = some a → R a)
    (hy : R y) : R (x.getD y) := by
  cases x with
  | none => exact hy
  | some a => exact hx a rfl

theorem Slots.forall_lookup_getD {κ α : Type} [BEq κ] [LawfulBEq κ] {R : α → Prop} {s : Slots κ α}
    (hs : ∀ e ∈ s, R e.2) (name : κ) {x : α} (hx : R x) : R ((s.lookup name).getD x) :=
  holds_getD (fun _ h => hs _ (mem_of_lookup h)) hx

namespace Slots
variable {κ α β : Type} [DecidableEq κ] {R : α → Prop} {s : Slots κ α}

theorem forall_put {name : κ} {x : α} (hs : ∀ e ∈ s, R e.2) (hx : R x) :
    ∀ e ∈ s.put name x, R e.2 := by
  induction s with
  | nil => exact List.forall_mem_singleton.mpr hx
  | cons e s ih =>
    obtain ⟨k, y⟩ := e
    obtain ⟨he, hs⟩ := List.forall_mem_cons.mp hs
    unfold Slots.put
    split
    · exact List.forall_mem_cons.mpr ⟨hx, hs⟩
    · exact List.forall_mem_cons.mpr ⟨he, ih hs⟩

theorem forall_putAll {entries : List (κ × α)} (hs : ∀ e ∈ s, R e.2)
    (hentries : ∀ e ∈ entries, R e.2) : ∀ e ∈ s.putAll entries, R e.2 := by
  induction entries generalizing s with
  | nil => exact hs
  | cons e entries ih =>
    obtain ⟨he, hentries⟩ := List.forall_mem_cons.mp hentries
    exact ih (forall_put hs he) hentries

theorem lookup_put (s : Slots κ α) (name other : κ) (x : α) :
    (s.put name x).lookup other = if other = name then some x else s.lookup other := by
  split
  · rename_i h
    rw [h, lookup_put_self]
  · rename_i h
    exact lookup_put_of_ne s x h

theorem putAll_concat (s : Slots κ α) (entries : List (κ × α)) (name : κ) (x : α) :
    s.putAll (entries ++ [(name, x)]) = (s.putAll entries).put name x := by
  rw [putAll, List.foldl_append]
  rfl

theorem put_map (f : α → β) (s : Slots κ α) (name : κ) (x : α) :
    Slots.put name (f x) (s.map fun e => (e.1, f e.2)) = (s.put name x).map fun e => (e.1, f e.2) := by
  induction s with
  | nil => rfl
  | cons e s ih =>
    obtain ⟨k, y⟩ := e
    by_cases h : k = name
    · simp [put, h]
    · simp [put, h, ih]

theorem putAll_map (f : α → β) (s : Slots κ α) (es : List (κ × α)) :
    Slots.putAll (s.map fun e => (e.1, f e.2)) (es.map fun e => (e.1, f e.2)) =
      (s.putAll es).map fun e => (e.1, f e.2) := by
  induction es generalizing s with
  | nil => rfl
  | cons e es ih =>
    have hstep := ih (s.put e.1 e.2)
    rw [← put_map f s e.1 e.2] at hstep
    exact hstep

/-- Of several entries of one name, the last is kept. -/
theorem lookup_putAll (s : Slots κ α) (entries : List (κ × α)) (name : κ) :
    (s.putAll entries).lookup name = (entries.reverse.lookup name).or (s.lookup name) := by
  induction entries generalizing s with
  | nil => rfl
  | cons e entries ih =>
    obtain ⟨k, x⟩ := e
    refine (ih (s.put k x)).trans ?_
    rw [lookup_put, List.reverse_cons, List.lookup_append, Option.or_assoc]
    congr 1
    by_cases h : name = k
    · simp [h]
    · simp [h, List.lookup_cons, beq_false_of_ne h]

theorem mem_names_put {k name : κ} {x : α} :
    k ∈ (s.put name x).names ↔ k = name ∨ k ∈ s.names := by
  induction s with
  | nil => simp [put, names]
  | cons e rest ih =>
    obtain ⟨k', y⟩ := e
    simp only [put]
    split
    case isTrue h =>
      subst h
      simp [names]
    case isFalse h =>
      simp only [names, List.map_cons, List.mem_cons] at ih ⊢
      rw [ih]
      exact or_left_comm

/-- A new name goes to the end, a name that is there stays where it is. -/
theorem names_put (s : Slots κ α) (name : κ) (x : α) :
    (s.put name x).names = if name ∈ s.names then s.names else s.names ++ [name] := by
  induction s with
  | nil => rfl
  | cons e rest ih =>
    obtain ⟨k, y⟩ := e
    by_cases hk : k = name
    · simp [put, names, hk]
    · have hput : put name x ((k, y) :: rest) = (k, y) :: put name x rest := if_neg hk
      have hmem : name ∈ k :: names rest ↔ name ∈ names rest := by simp [Ne.symm hk]
      rw [hput]
      change k :: names (put name x rest) =
        if name ∈ k :: names rest then k :: names rest else k :: (names rest ++ [name])
      rw [ih]
      by_cases hrest : name ∈ names rest
      · rw [if_pos hrest, if_pos (hmem.mpr hrest)]
      · rw [if_neg hrest, if_neg (mt hmem.mp hrest)]

theorem names_put_of_mem {name : κ} (h : name ∈ s.names) (x : α) :
    (s.put name x).names = s.names := by
  rw [names_put, if_pos h]

theorem nodup_names_put (h : s.names.Nodup) (name : κ) (x : α) :
    (s.put name x).names.Nodup := by
  induction s with
  | nil => simp [put, names]
  | cons e rest ih =>
    obtain ⟨k, y⟩ := e
    obtain ⟨hk, hrest⟩ := List.nodup_cons.mp h
    simp only [put]
    split
    case isTrue heq => exact h
    case isFalse hne =>
      refine List.nodup_cons.mpr ⟨fun hmem => ?_, ih hrest⟩
      rcases mem_names_put.mp hmem with heq | hmem
      · exact hne heq
      · exact hk hmem

theorem nodup_names_putAll (h : s.names.Nodup) (entries : List (κ × α)) :
    (s.putAll entries).names.Nodup := by
  induction entries generalizing s with
  | nil => exact h
  | cons e rest ih => exact ih (nodup_names_put h e.1 e.2)

theorem lookup_of_mem (h : s.names.Nodup) {e : κ × α} (he : e ∈ s) :
    s.lookup e.1 = some e.2 := by
  induction s with
  | nil => cases he
  | cons e' s ih =>
    obtain ⟨k, y⟩ := e'
    obtain ⟨hk, hrest⟩ := List.nodup_cons.mp h
    rcases List.mem_cons.mp he with rfl | he
    · exact List.lookup_cons_self
    · have hname : e.1 ∈ names s := List.mem_map_of_mem he
      have hne : e.1 ≠ k := fun heq => hk (heq ▸ hname)
      rw [List.lookup_cons, beq_false_of_ne hne]
      exact ih hrest he

theorem lookup_eq_none {name : κ} : s.lookup name = none ↔ name ∉ s.names := by
  induction s with
  | nil => simp [Slots.names]
  | cons e s ih =>
    obtain ⟨k, x⟩ := e
    by_cases h : name = k
    · simp [h, Slots.names]
    · simpa [h, Slots.names, List.lookup_cons, beq_false_of_ne h] using ih

theorem exists_lookup_of_mem_names {name : κ} (h : name ∈ s.names) :
    ∃ x, s.lookup name = some x :=
  Option.ne_none_iff_exists'.mp fun hnone => lookup_eq_none.mp hnone h

end Slots

/-! ### Missing references -/

variable {st : Store}

theorem frame_of_size_le {r : FrameRef} (hr : st.frames.size ≤ r) : st.frame r = ⟨[], []⟩ := by
  unfold Store.frame
  rw [Array.getElem?_eq_none hr]
  rfl

theorem slots_of_size_le {r : ObjectRef} (hr : st.objects.size ≤ r) : st.slots r = [] := by
  unfold Store.slots
  rw [Array.getElem?_eq_none hr]
  rfl

theorem function_of_size_le {r : FunctionRef} (hr : st.functions.size ≤ r) :
    st.function r = .range := by
  unfold Store.function
  rw [Array.getElem?_eq_none hr]
  rfl

/-! ### Assignment to a member -/

namespace Store

theorem objects_size_putSlot (st : Store) (r : ObjectRef) (name : Text) (v : Value) :
    (st.putSlot r name v).objects.size = st.objects.size := by
  simp [putSlot]

theorem slots_putSlot_eq (st : Store) (r r' : ObjectRef) (name : Text) (v : Value) :
    (st.putSlot r name v).slots r' =
      if r = r' ∧ r < st.objects.size then (st.slots r').put name v else st.slots r' := by
  unfold Store.slots Store.putSlot
  rw [Array.getElem?_modify]
  by_cases heq : r = r'
  · subst heq
    by_cases hlt : r < st.objects.size
    · simp [hlt]
    · simp [hlt]
  · simp [heq]

theorem slots_putSlot {r : ObjectRef} (hr : r < st.objects.size) (name : Text) (v : Value) :
    (st.putSlot r name v).slots r = (st.slots r).put name v := by
  rw [slots_putSlot_eq, if_pos ⟨rfl, hr⟩]

theorem slots_putSlot_of_ne {r other : ObjectRef} (hne : other ≠ r) (name : Text) (v : Value) :
    (st.putSlot r name v).slots other = st.slots other := by
  rw [slots_putSlot_eq, if_neg fun h => hne h.1.symm]

/-! ### Stores of the same objects -/

/-- The stores hold the same objects, and functions of the same names. -/
structure SameObjects (st st' : Store) : Prop where
  objects : st.objects = st'.objects
  names : ∀ r, (st.function r).name = (st'.function r).name

namespace SameObjects
variable {st st' : Store}

mutual

theorem datumWith_eq (h : st.SameObjects st') (object? : ObjectRef → Option Datum) (v : Value) :
    st.datumWith object? v = st'.datumWith object? v := by
  cases v with
  | array items => rw [datumWith, datumWith, dataWith_eq h object? items]
  | function r => rw [datumWith, datumWith, h.names]
  | _ => rfl

theorem dataWith_eq (h : st.SameObjects st') (object? : ObjectRef → Option Datum)
    (vs : List Value) : st.dataWith object? vs = st'.dataWith object? vs := by
  cases vs with
  | nil => rfl
  | cons v vs => rw [dataWith, dataWith, datumWith_eq h object? v, dataWith_eq h object? vs]

end

variable (h : st.SameObjects st')
include h

theorem slots_eq (r : ObjectRef) : st.slots r = st'.slots r := by
  rw [slots, slots, h.objects]

theorem truthy_eq (v : Value) : st.truthy v = st'.truthy v := by
  cases v with
  | object r => rw [truthy, truthy, h.slots_eq]
  | _ => rfl

theorem objectWithin_eq (n : Nat) : st.objectWithin n = st'.objectWithin n := by
  induction n with
  | zero => rfl
  | succ n ih =>
    funext r
    rw [objectWithin, objectWithin, h.slots_eq, ih, h.dataWith_eq]

theorem datum?_eq (v : Value) : st.datum? v = st'.datum? v := by
  rw [datum?, datum?, h.objects, h.objectWithin_eq, h.datumWith_eq]

theorem equalObjects_eq (n : Nat) : st.equalObjects n = st'.equalObjects n := by
  induction n with
  | zero => rfl
  | succ n ih =>
    funext r s
    rw [equalObjects, equalObjects, h.slots_eq, h.slots_eq, ih]

theorem equal?_eq (v w : Value) : st.equal? v w = st'.equal? v w := by
  rw [equal?, equal?, h.objects, h.equalObjects_eq]

theorem holds?_eq (vs : List Value) (v : Value) : st.holds? vs v = st'.holds? vs v := by
  simp only [holds?, h.equal?_eq]

end SameObjects
end Store
end ChatTemplate
