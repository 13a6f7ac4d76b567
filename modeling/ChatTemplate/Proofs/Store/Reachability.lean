import ChatTemplate.Proofs.Eval.Growth
import ChatTemplate.Proofs.Store.Basic
import Mathlib.Data.Finset.Card
import Mathlib.Logic.Relation

/-!
# Objects that are reachable from themselves

`Store.Reaches`: an object is reachable from a value through array items and slots. In a store that
is `Store.Acyclic` no object is reachable from its own slots. New objects whose slots hold older
ones keep it so (`Acyclic.of_keeps`). An assignment to a member of an object does if and only if the
object is not reachable from the value (`acyclic_putSlot_iff`).
-/

namespace ChatTemplate
open Relation

/-! ### The objects in a value -/

/-- The object stands in the value: it is the value, or stands in an item of it. -/
inductive Value.Mentions : Value → ObjectRef → Prop
  | object (r : ObjectRef) : Mentions (.object r) r
  | item {items : List Value} {v : Value} {r : ObjectRef} (hv : v ∈ items) (h : Mentions v r) :
      Mentions (.array items) r

/-- All objects in the value are among these. -/
def Value.Among (O : Set ObjectRef) (v : Value) : Prop := ∀ r, v.Mentions r → r ∈ O

namespace Value
variable {O P : Set ObjectRef} {r s : ObjectRef} {v : Value} {items : List Value}

theorem mentions_object : (Value.object s).Mentions r ↔ r = s := by
  constructor
  · intro h
    cases h
    rfl
  · rintro rfl
    exact .object r

theorem mentions_array : (Value.array items).Mentions r ↔ ∃ v ∈ items, v.Mentions r := by
  constructor
  · intro h
    cases h with
    | item hv h => exact ⟨_, hv, h⟩
  · rintro ⟨v, hv, h⟩
    exact .item hv h

theorem Among.mono (h : v.Among O) (hOP : O ⊆ P) : v.Among P := fun r hr => hOP (h r hr)

theorem among_object : (Value.object r).Among O ↔ r ∈ O := by
  simp [Among, mentions_object]

@[simp] theorem among_array : (Value.array items).Among O ↔ ∀ v ∈ items, v.Among O := by
  simp only [Among, mentions_array]
  constructor
  · intro h v hv r hr
    exact h r ⟨v, hv, hr⟩
  · rintro h r ⟨v, hv, hr⟩
    exact h v hv r hr

@[simp] theorem among_undefined : Value.undefined.Among O := nofun

@[simp] theorem among_null : Value.null.Among O := nofun

@[simp] theorem among_bool (b : Bool) : (Value.bool b).Among O := nofun

@[simp] theorem among_int (i : Int) : (Value.int i).Among O := nofun

@[simp] theorem among_float (f : Float) : (Value.float f).Among O := nofun

@[simp] theorem among_string (s : Text) : (Value.string s).Among O := nofun

@[simp] theorem among_function (r : FunctionRef) : (Value.function r).Among O := nofun

@[simp] theorem among_ofPoints (cs : List Codepoint) : (Value.ofPoints cs).Among O := nofun

@[simp] theorem among_ofNumber (n : Number) : (Value.ofNumber n).Among O := by
  cases n <;> exact nofun

end Value

/-! ### Paths -/

namespace Store
variable {st st' : Store} {r s : ObjectRef} {name : Text} {v : Value}

/-- The second object stands in a slot of the first one. -/
def Refers (st : Store) (r s : ObjectRef) : Prop := ∃ e ∈ st.slots r, e.2.Mentions s

/-- The object is reachable from the value through array items and slots. -/
def Reaches (st : Store) (v : Value) (s : ObjectRef) : Prop :=
  ∃ r, v.Mentions r ∧ ReflTransGen st.Refers r s

/-- No object is reachable from its own slots. -/
def Acyclic (st : Store) : Prop := ∀ r, ∀ e ∈ st.slots r, ¬ st.Reaches e.2 r

theorem Refers.lt_size (h : st.Refers r s) : r < st.objects.size := by
  obtain ⟨e, he, -⟩ := h
  refine Nat.lt_of_not_le fun hle => ?_
  rw [slots_of_size_le hle] at he
  exact List.not_mem_nil he

theorem exists_reaches_iff :
    (∃ e ∈ st.slots r, st.Reaches e.2 s) ↔ TransGen st.Refers r s := by
  rw [TransGen.head'_iff]
  constructor
  · rintro ⟨e, he, t, ht, hts⟩
    exact ⟨t, ⟨e, he, ht⟩, hts⟩
  · rintro ⟨t, ⟨e, he, ht⟩, hts⟩
    exact ⟨e, he, t, ht, hts⟩

theorem acyclic_iff : st.Acyclic ↔ ∀ r, ¬ TransGen st.Refers r r := by
  simp only [Acyclic, ← exists_reaches_iff, not_exists, not_and]

/-- Where there are no more references, there is no more cycle. -/
theorem Acyclic.of_refers (hac : st.Acyclic) (h : ∀ r s, st'.Refers r s → st.Refers r s) :
    st'.Acyclic := by
  rw [acyclic_iff] at hac ⊢
  exact fun r hr => hac r (TransGen.mono h _ _ hr)

/-! ### More objects -/

/-- What is reachable from itself stays so as objects are added. -/
theorem Keeps.acyclic (h : st.Keeps st') (hac : st'.Acyclic) : st.Acyclic := by
  refine hac.of_refers fun r s hrs => ?_
  unfold Refers
  rw [h.slots_eq hrs.lt_size]
  exact hrs

/-- A path that starts at an old object stays among them, as no slots hold new ones. -/
theorem Keeps.transGen_refers (h : st.Keeps st')
    (hslots : ∀ r, ∀ e ∈ st'.slots r, e.2.Among (Set.Iio st.objects.size))
    (hr : r < st.objects.size) (hrs : TransGen st'.Refers r s) : TransGen st.Refers r s := by
  have hlt {a b : ObjectRef} (hab : st'.Refers a b) : b < st.objects.size := by
    obtain ⟨e, he, hb⟩ := hab
    exact hslots a e he b hb
  have hold {a b : ObjectRef} (ha : a < st.objects.size) (hab : st'.Refers a b) :
      st.Refers a b := by
    obtain ⟨e, he, hb⟩ := hab
    rw [h.slots_eq ha] at he
    exact ⟨e, he, hb⟩
  induction hrs with
  | single hab => exact .single (hold hr hab)
  | tail hpath hab ih =>
    obtain ⟨a, -, ha⟩ := TransGen.tail'_iff.mp hpath
    exact ih.tail (hold (hlt ha) hab)

theorem Acyclic.of_keeps (hac : st.Acyclic) (h : st.Keeps st')
    (hslots : ∀ r, ∀ e ∈ st'.slots r, e.2.Among (Set.Iio st.objects.size)) : st'.Acyclic := by
  rw [acyclic_iff] at hac ⊢
  intro r hr
  obtain ⟨a, -, e, he, hmentions⟩ := TransGen.tail'_iff.mp hr
  exact hac r (h.transGen_refers hslots (hslots a e he r hmentions) hr)

/-! ### Assignment to a member -/

theorem refers_putSlot {a b : ObjectRef} (h : (st.putSlot r name v).Refers a b) :
    st.Refers a b ∨ (a = r ∧ r < st.objects.size ∧ v.Mentions b) := by
  obtain ⟨e, he, hb⟩ := h
  rw [slots_putSlot_eq] at he
  split at he
  · rename_i hr
    obtain ⟨rfl, hlt⟩ := hr
    have hslots : ∀ e ∈ (st.slots r).put name v, e.2.Mentions b → st.Refers r b ∨ v.Mentions b :=
      Slots.forall_put (R := fun w => w.Mentions b → st.Refers r b ∨ v.Mentions b)
        (fun e he hb => .inl ⟨e, he, hb⟩) Or.inr
    exact (hslots e he hb).imp_right fun hv => ⟨rfl, hlt, hv⟩
  · exact .inl ⟨e, he, hb⟩

/-- A path after the assignment is one from before, or its end is reachable from the value. -/
theorem reflTransGen_putSlot {a b : ObjectRef}
    (h : ReflTransGen (st.putSlot r name v).Refers a b) :
    ReflTransGen st.Refers a b ∨ st.Reaches v b := by
  induction h with
  | refl => exact .inl .refl
  | tail _ hbc ih =>
    rcases refers_putSlot hbc with hbc | ⟨-, -, hc⟩
    · rcases ih with hab | ⟨s, hs, hsb⟩
      · exact .inl (hab.tail hbc)
      · exact .inr ⟨s, hs, hsb.tail hbc⟩
    · exact .inr ⟨_, hc, .refl⟩

/-- A cycle after the assignment is one from before, or runs through the value. -/
theorem transGen_putSlot {a b : ObjectRef} (h : TransGen (st.putSlot r name v).Refers a b) :
    TransGen st.Refers a b ∨
      (ReflTransGen (st.putSlot r name v).Refers a r ∧ st.Reaches v b) := by
  induction h with
  | single hab =>
    rcases refers_putSlot hab with hab | ⟨rfl, -, hb⟩
    · exact .inl (.single hab)
    · exact .inr ⟨.refl, _, hb, .refl⟩
  | tail hpath hbc ih =>
    rcases refers_putSlot hbc with hbc | ⟨rfl, -, hc⟩
    · rcases ih with hab | ⟨har, s, hs, hsb⟩
      · exact .inl (hab.tail hbc)
      · exact .inr ⟨har, s, hs, hsb.tail hbc⟩
    · exact .inr ⟨hpath.to_reflTransGen, _, hc, .refl⟩

theorem Acyclic.putSlot (hac : st.Acyclic) (hv : ¬ st.Reaches v r) :
    (st.putSlot r name v).Acyclic := by
  rw [acyclic_iff] at hac ⊢
  intro a ha
  rcases transGen_putSlot ha with ha | ⟨har, s, hs, hsa⟩
  · exact hac a ha
  · rcases reflTransGen_putSlot har with har | hvr
    · exact hv ⟨s, hs, hsa.trans har⟩
    · exact hv hvr

/-- What led to `r` still does, at the latest from `r` itself. -/
theorem Reaches.putSlot (h : st.Reaches v r) (w : Value) : (st.putSlot r name w).Reaches v r := by
  obtain ⟨s, hs, hsr⟩ := h
  refine ⟨s, hs, ?_⟩
  clear hs
  induction hsr using ReflTransGen.head_induction_on with
  | refl => exact .refl
  | @head a b hab _ ih =>
    by_cases ha : a = r
    · rw [ha]
    · refine ih.head ?_
      unfold Refers
      rw [slots_putSlot_of_ne ha]
      exact hab

/-- Assigned to a member of an object that is reachable from it, a value closes a cycle. -/
theorem exists_reaches_putSlot (hr : r < st.objects.size) (h : st.Reaches v r) :
    ∃ e ∈ (st.putSlot r name v).slots r, (st.putSlot r name v).Reaches e.2 r := by
  have hmem : (name, v) ∈ (st.putSlot r name v).slots r := by
    rw [slots_putSlot hr]
    exact mem_of_lookup (Slots.lookup_put_self ..)
  exact ⟨(name, v), hmem, h.putSlot v⟩

/-- An assignment closes a cycle if and only if the object is there and reachable from the value. -/
theorem acyclic_putSlot_iff (hac : st.Acyclic) :
    (st.putSlot r name v).Acyclic ↔ ¬ (r < st.objects.size ∧ st.Reaches v r) := by
  constructor
  · rintro h ⟨hr, hv⟩
    obtain ⟨e, he, hreaches⟩ : ∃ e ∈ (st.putSlot r name v).slots r,
        (st.putSlot r name v).Reaches e.2 r := exists_reaches_putSlot hr hv
    exact h r e he hreaches
  · intro h
    by_cases hr : r < st.objects.size
    · exact hac.putSlot fun hv => h ⟨hr, hv⟩
    · exact hac.of_refers fun a b hab =>
        (refers_putSlot hab).resolve_right fun hnew => hr hnew.2.1

end Store
end ChatTemplate
