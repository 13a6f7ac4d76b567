import ChatTemplate.Proofs.Store.Reachability
import ChatTemplate.Store.Equality

/-!
# Questions with an answer

In an acyclic store every value can be spelled out and any two values compared
(`Acyclic.datum?_isSome`, `Acyclic.equal?_isSome`), as each object on the way reaches fewer objects
than the one before. A value cannot be spelled out if and only if an object in it is reachable from
its own slots (`datum?_eq_none_iff`).
-/

namespace ChatTemplate.Store
open Relation

variable {st : Store} {r s : ObjectRef}

/-! ### How many objects are reachable -/

open Classical in
/-- The number of objects reachable from an object, which count it if it has slots. -/
noncomputable def rank (st : Store) (r : ObjectRef) : ℕ :=
  ((Finset.range st.objects.size).filter fun s => ReflTransGen st.Refers r s).card

theorem rank_le_size (st : Store) (r : ObjectRef) : st.rank r ≤ st.objects.size := by
  classical
  calc st.rank r ≤ (Finset.range st.objects.size).card := Finset.card_filter_le _ _
    _ = st.objects.size := Finset.card_range _

/-- An object reaches more than those in its slots do, unless it is one of those that they reach. -/
theorem rank_lt (hr : ¬ TransGen st.Refers r r) (h : st.Refers r s) : st.rank s < st.rank r := by
  classical
  refine Finset.card_lt_card (Finset.ssubset_iff_of_subset ?_ |>.mpr ⟨r, ?_, ?_⟩)
  · intro t ht
    obtain ⟨hlt, hst⟩ := Finset.mem_filter.mp ht
    exact Finset.mem_filter.mpr ⟨hlt, hst.head h⟩
  · exact Finset.mem_filter.mpr ⟨Finset.mem_range.mpr h.lt_size, .refl⟩
  · intro hmem
    exact hr (TransGen.head' h (Finset.mem_filter.mp hmem).2)

/-! ### Spelling out -/

section Data
variable {f : ObjectRef → Option Datum}

mutual

theorem datumWith_isSome (v : Value) (h : ∀ r, v.Mentions r → (f r).isSome) :
    (st.datumWith f v).isSome := by
  cases v with
  | array items =>
    rw [datumWith, Option.isSome_map]
    exact dataWith_isSome items fun w hw r hr => h r (.item hw hr)
  | object r => exact h r (.object r)
  | _ => rfl

theorem dataWith_isSome (vs : List Value) (h : ∀ v ∈ vs, ∀ r, v.Mentions r → (f r).isSome) :
    (st.dataWith f vs).isSome := by
  cases vs with
  | nil => rfl
  | cons v vs =>
    obtain ⟨hv, hvs⟩ := List.forall_mem_cons.mp h
    obtain ⟨d, hd⟩ := Option.isSome_iff_exists.mp (datumWith_isSome v hv)
    obtain ⟨ds, hds⟩ := Option.isSome_iff_exists.mp (dataWith_isSome vs hvs)
    simp [dataWith, hd, hds]

end

mutual

theorem datumWith_eq_none (v : Value) (h : v.Mentions r) (hr : f r = none) :
    st.datumWith f v = none := by
  cases v with
  | array items =>
    obtain ⟨w, hw, hr'⟩ := Value.mentions_array.mp h
    rw [datumWith, dataWith_eq_none items hw hr' hr]
    rfl
  | object s =>
    cases h
    exact hr
  | _ => cases h

theorem dataWith_eq_none (vs : List Value) {w : Value} (hw : w ∈ vs) (h : w.Mentions r)
    (hr : f r = none) : st.dataWith f vs = none := by
  cases vs with
  | nil => cases hw
  | cons v vs =>
    rw [dataWith]
    rcases List.mem_cons.mp hw with rfl | hw
    · rw [datumWith_eq_none w h hr]
      rfl
    · rw [dataWith_eq_none vs hw h hr]
      cases st.datumWith f v <;> rfl

end

end Data

theorem objectWithin_isSome (hr : ∀ s, ReflTransGen st.Refers r s → ¬ TransGen st.Refers s s) {n : ℕ}
    (h : st.rank r < n) : (st.objectWithin n r).isSome := by
  induction n generalizing r with
  | zero => exact absurd h (Nat.not_lt_zero _)
  | succ n ih =>
    have hdata : (st.dataWith (st.objectWithin n) ((st.slots r).map Prod.snd)).isSome := by
      refine dataWith_isSome _ fun v hv s hs => ?_
      obtain ⟨e, he, rfl⟩ := List.mem_map.mp hv
      have hrefers : st.Refers r s := ⟨e, he, hs⟩
      refine ih (fun t ht => hr t (ht.head hrefers)) ?_
      exact Nat.lt_of_lt_of_le (rank_lt (hr r .refl) hrefers) (Nat.le_of_lt_succ h)
    obtain ⟨ds, hds⟩ := Option.isSome_iff_exists.mp hdata
    simp [objectWithin, hds]

theorem objectWithin_succ_eq_none (h : st.Refers r s) {n : ℕ} (hs : st.objectWithin n s = none) :
    st.objectWithin (n + 1) r = none := by
  obtain ⟨e, he, hmentions⟩ := h
  have hdata : st.dataWith (st.objectWithin n) ((st.slots r).map Prod.snd) = none :=
    dataWith_eq_none _ (List.mem_map_of_mem he) hmentions hs
  rw [objectWithin, hdata]
  rfl

/-- Spelling out an object that is reachable from itself does not end, however deep it goes. -/
theorem objectWithin_eq_none (h : TransGen st.Refers r r) (n : ℕ) : st.objectWithin n r = none := by
  induction n generalizing r with
  | zero => rfl
  | succ n ih =>
    obtain ⟨s, hrs, hsr⟩ := TransGen.head'_iff.mp h
    exact objectWithin_succ_eq_none hrs (ih (TransGen.tail' hsr hrs))

theorem objectWithin_eq_none_of_reaches (h : ReflTransGen st.Refers r s) (hs : TransGen st.Refers s s)
    (n : ℕ) : st.objectWithin n r = none := by
  induction h using ReflTransGen.head_induction_on generalizing n with
  | refl => exact objectWithin_eq_none hs n
  | head hab _ ih =>
    cases n with
    | zero => rfl
    | succ n => exact objectWithin_succ_eq_none hab (ih n)

/-- An object that is reachable from its own slots is reachable from the value. -/
def Cyclic (st : Store) (v : Value) : Prop :=
  ∃ r, st.Reaches v r ∧ ∃ e ∈ st.slots r, st.Reaches e.2 r

theorem Acyclic.not_cyclic (hac : st.Acyclic) (v : Value) : ¬ st.Cyclic v :=
  fun ⟨r, _, e, he, hreaches⟩ => hac r e he hreaches

/-- A value can be spelled out unless there is something in it that is part of itself. -/
theorem datum?_eq_none_iff {v : Value} : st.datum? v = none ↔ st.Cyclic v := by
  constructor
  · intro hnone
    by_contra hcyclic
    have hsome : (st.datum? v).isSome := by
      refine datumWith_isSome v fun r hr => objectWithin_isSome (fun s hs hss => hcyclic ?_)
        (Nat.lt_succ_of_le (st.rank_le_size r))
      exact ⟨s, ⟨r, hr, hs⟩, exists_reaches_iff.mpr hss⟩
    rw [hnone] at hsome
    cases hsome
  · rintro ⟨s, ⟨r, hr, hrs⟩, hcycle⟩
    exact datumWith_eq_none v hr (objectWithin_eq_none_of_reaches hrs (exists_reaches_iff.mp hcycle) _)

/-- Every value can be spelled out. -/
theorem Acyclic.datum?_isSome (hac : st.Acyclic) (v : Value) : (st.datum? v).isSome :=
  Option.isSome_iff_ne_none.mpr fun hnone => hac.not_cyclic v (datum?_eq_none_iff.mp hnone)

theorem datum?_eq_none {e : Text × Value} (he : e ∈ st.slots r) (h : st.Reaches e.2 r) :
    st.datum? (.object r) = none :=
  objectWithin_eq_none (exists_reaches_iff.mp ⟨e, he, h⟩) _

/-! ### Comparing -/

section Equality
variable {f : ObjectRef → ObjectRef → Option Bool}

mutual

theorem equalWith_isSome (v w : Value) (h : ∀ r, v.Mentions r → ∀ s, (f r s).isSome) :
    (equalWith f v w).isSome := by
  cases v with
  | array as =>
    cases w with
    | array bs =>
      rw [equalWith]
      split
      · exact equalItems_isSome as bs fun v hv r hr => h r (.item hv hr)
      · rfl
    | _ => rfl
  | object r =>
    cases w with
    | object s => exact h r (.object r) s
    | _ => rfl
  | _ => cases w <;> rfl

theorem equalItems_isSome (vs ws : List Value)
    (h : ∀ v ∈ vs, ∀ r, v.Mentions r → ∀ s, (f r s).isSome) : (equalItems f vs ws).isSome := by
  cases vs with
  | nil => cases ws <;> rfl
  | cons v vs =>
    cases ws with
    | nil => rfl
    | cons w ws =>
      obtain ⟨hv, hvs⟩ := List.forall_mem_cons.mp h
      obtain ⟨b, hb⟩ := Option.isSome_iff_exists.mp (equalWith_isSome v w hv)
      rw [equalItems, hb]
      cases b with
      | true => exact equalItems_isSome vs ws hvs
      | false => rfl

end

theorem allPass_isSome {α : Type} {p : α → Option Bool} {xs : List α}
    (h : ∀ x ∈ xs, (p x).isSome) : (allPass p xs).isSome := by
  induction xs with
  | nil => rfl
  | cons x xs ih =>
    obtain ⟨hx, hxs⟩ := List.forall_mem_cons.mp h
    obtain ⟨b, hb⟩ := Option.isSome_iff_exists.mp hx
    rw [allPass, hb]
    cases b with
    | true => exact ih hxs
    | false => rfl

end Equality

theorem Acyclic.equalObjects_isSome (hac : st.Acyclic) {n : ℕ} (h : st.rank r < n)
    (s : ObjectRef) : (st.equalObjects n r s).isSome := by
  induction n generalizing r s with
  | zero => exact absurd h (Nat.not_lt_zero _)
  | succ n ih =>
    rw [equalObjects]
    split
    · refine allPass_isSome fun e he => equalWith_isSome _ _ fun t ht => ih ?_
      exact Nat.lt_of_lt_of_le (rank_lt (acyclic_iff.mp hac r) ⟨e, he, ht⟩) (Nat.le_of_lt_succ h)
    · rfl

/-- Any two values can be compared. -/
theorem Acyclic.equal?_isSome (hac : st.Acyclic) (v w : Value) : (st.equal? v w).isSome := by
  refine equalWith_isSome v w fun r _ => hac.equalObjects_isSome ?_
  have hsize : st.rank r ≤ st.objects.size * st.objects.size :=
    (st.rank_le_size r).trans (Nat.le_mul_self _)
  exact Nat.lt_succ_of_le hsize

/-- A value can be looked for in any list. -/
theorem Acyclic.holds?_isSome (hac : st.Acyclic) (vs : List Value) (v : Value) :
    (st.holds? vs v).isSome := by
  rw [holds?, Option.isSome_map]
  refine allPass_isSome fun w _ => ?_
  rw [Option.isSome_map]
  exact hac.equal?_isSome w v

end ChatTemplate.Store
