import ChatTemplate.Proofs.Eval.Pairing
import ChatTemplate.Proofs.Heap.Basic

/-!
# Sound heaps, and what steps spare

In a sound heap an array holds no array that came after it, and no two objects have one dictionary.
`Heap.Spares` is what a step leaves as it is: arrays keep their lists and these their items, objects
keep their dictionaries; of the lists and dictionaries that belong to none, those below a mark stay
as they are. So an item stands for the same value before and after (`Heap.Shows.mono`).
-/

namespace ChatTemplate

/-- The item is no array but one of the first `n`. -/
def Item.Below (n : Nat) (x : Item) : Prop := ∀ r, x = .array r → r < n

theorem Item.Below.mono {n m : Nat} {x : Item} (h : x.Below n) (hnm : n ≤ m) : x.Below m :=
  fun r hr => Nat.lt_of_lt_of_le (h r hr) hnm

theorem Item.toValue_congr {f g : ArrayRef → List Value} {x : Item}
    (h : ∀ r, x = .array r → f r = g r) : x.toValue f = x.toValue g := by
  cases x with
  | array r => exact congrArg Value.array (h r rfl)
  | _ => rfl

namespace Heap

structure Sound (h : Heap) : Prop where
  arrays : ∀ (r : ArrayRef) (l : ListRef), h.arrays[r]? = some l →
    ∃ xs, h.lists[l]? = some xs ∧ ∀ x ∈ xs, Item.Below r x
  objects : ∀ (r : ObjectRef) (d : DictRef), h.objects[r]? = some d →
    ∃ s, h.dicts[d]? = some s ∧ ∀ e ∈ s, Item.Below h.arrays.size e.2
  distinct : ∀ (r r' : ObjectRef) (d : DictRef), h.objects[r]? = some d → h.objects[r']? = some d →
    r = r'
  frames : ∀ f ∈ h.frames, ∀ e ∈ f.vars, Item.Below h.arrays.size e.2

/-- Lists and dictionaries below the mark are there already. Where nothing is assigned, objects stay
as they are, too. -/
structure Mark where
  lists : Nat
  dicts : Nat
  assigns : Bool

/-- The first mark asks for no more than the second one. -/
structure Mark.Le (m m' : Mark) : Prop where
  lists : m.lists ≤ m'.lists
  dicts : m.dicts ≤ m'.dicts
  assigns : m'.assigns = true → m.assigns = true

theorem Mark.Le.refl (m : Mark) : m.Le m := ⟨Nat.le_refl _, Nat.le_refl _, id⟩

theorem Mark.Le.trans {m m' m'' : Mark} (hle : m.Le m') (hle' : m'.Le m'') : m.Le m'' :=
  ⟨Nat.le_trans hle.lists hle'.lists, Nat.le_trans hle.dicts hle'.dicts,
    fun ha => hle.assigns (hle'.assigns ha)⟩

theorem Mark.Le.quiet {m : Mark} {l d : Nat} {w : Bool} (hle : m.Le ⟨l, d, w⟩) :
    m.Le ⟨l, d, false⟩ :=
  ⟨hle.lists, hle.dicts, nofun⟩

/-- All that is there now. -/
def mark (h : Heap) (assigns : Bool) : Mark := ⟨h.lists.size, h.dicts.size, assigns⟩

/-- What was there stays as it is, but for what assignments do to objects, and for lists and
dictionaries that are not below the mark and belong to nothing. -/
structure Spares (m : Mark) (h h' : Heap) : Prop where
  lists : ∀ (l : ListRef), l < m.lists → h'.lists[l]? = h.lists[l]?
  dicts : ∀ (d : DictRef), d < m.dicts → (∀ r : ObjectRef, h.objects[r]? ≠ some d) →
    h'.dicts[d]? = h.dicts[d]?
  arrays : ∀ (r : ArrayRef) (l : ListRef), h.arrays[r]? = some l →
    h'.arrays[r]? = some l ∧ h'.lists[l]? = h.lists[l]?
  objects : ∀ (r : ObjectRef) (d : DictRef), h.objects[r]? = some d → h'.objects[r]? = some d
  assigned : ∃ as, h'.assignments = h.assignments ++ as ∧ (m.assigns = false → as = []) ∧
    ∀ (r : ObjectRef) (d : DictRef), h.objects[r]? = some d →
      h'.dict d = (h.dict d).afterAssignments r as
  newArrays : ∀ (r : ArrayRef) (l : ListRef), h'.arrays[r]? = some l →
    h.arrays[r]? = some l ∨ m.lists ≤ l
  newObjects : ∀ (r : ObjectRef) (d : DictRef), h'.objects[r]? = some d →
    h.objects[r]? = some d ∨ m.dicts ≤ d
  lists_size : h.lists.size ≤ h'.lists.size
  dicts_size : h.dicts.size ≤ h'.dicts.size

variable {h h' h'' : Heap} {m m' : Mark}

namespace Spares

/-- A step without assignments. -/
theorem assigned_none (hassignments : h'.assignments = h.assignments)
    (hdicts : ∀ (r : ObjectRef) (d : DictRef), h.objects[r]? = some d →
      h'.dicts[d]? = h.dicts[d]?) :
    ∃ as, h'.assignments = h.assignments ++ as ∧ (m.assigns = false → as = []) ∧
      ∀ (r : ObjectRef) (d : DictRef), h.objects[r]? = some d →
        h'.dict d = (h.dict d).afterAssignments r as :=
  ⟨[], hassignments.trans (List.append_nil _).symm, fun _ => rfl, fun r d hr => by
    rw [dict, hdicts r d hr]
    rfl⟩

theorem refl (m : Mark) (h : Heap) : h.Spares m h where
  lists _ _ := rfl
  dicts _ _ _ := rfl
  arrays _ _ hr := ⟨hr, rfl⟩
  objects _ _ := id
  assigned := assigned_none rfl fun _ _ _ => rfl
  newArrays _ _ := .inl
  newObjects _ _ := .inl
  lists_size := Nat.le_refl _
  dicts_size := Nat.le_refl _

theorem trans (s : h.Spares m h') (s' : h'.Spares m h'') : h.Spares m h'' where
  lists l hl := (s'.lists l hl).trans (s.lists l hl)
  dicts d hd hfree := by
    refine (s'.dicts d hd fun r hr => ?_).trans (s.dicts d hd hfree)
    rcases s.newObjects r d hr with hold | hle
    · exact hfree r hold
    · exact absurd hd (Nat.not_lt.mpr hle)
  arrays r l hr := by
    obtain ⟨hr', hl⟩ := s.arrays r l hr
    obtain ⟨hr'', hl'⟩ := s'.arrays r l hr'
    exact ⟨hr'', hl'.trans hl⟩
  objects r d hr := s'.objects r d (s.objects r d hr)
  assigned := by
    obtain ⟨as, has, hnone, hdict⟩ := s.assigned
    obtain ⟨as', has', hnone', hdict'⟩ := s'.assigned
    refine ⟨as ++ as', by rw [has', has, List.append_assoc], fun hm => ?_, fun r d hr => ?_⟩
    · rw [hnone hm, hnone' hm, List.append_nil]
    · rw [hdict' r d (s.objects r d hr), hdict r d hr]
      exact List.foldl_append.symm
  newArrays r l hr := (s'.newArrays r l hr).elim (s.newArrays r l) .inr
  newObjects r d hr := (s'.newObjects r d hr).elim (s.newObjects r d) .inr
  lists_size := Nat.le_trans s.lists_size s'.lists_size
  dicts_size := Nat.le_trans s.dicts_size s'.dicts_size

theorem weaken (s : h.Spares m' h') (hle : m.Le m') : h.Spares m h' where
  lists l hl := s.lists l (Nat.lt_of_lt_of_le hl hle.lists)
  dicts d hd hfree := s.dicts d (Nat.lt_of_lt_of_le hd hle.dicts) hfree
  arrays := s.arrays
  objects := s.objects
  assigned := by
    obtain ⟨as, has, hnone, hdict⟩ := s.assigned
    refine ⟨as, has, fun hm => hnone ?_, hdict⟩
    cases hm' : m'.assigns with
    | false => rfl
    | true => rw [hle.assigns hm'] at hm; cases hm
  newArrays r l hr := (s.newArrays r l hr).imp_right (Nat.le_trans hle.lists)
  newObjects r d hr := (s.newObjects r d hr).imp_right (Nat.le_trans hle.dicts)
  lists_size := s.lists_size
  dicts_size := s.dicts_size

theorem arrays_size (s : h.Spares m h') : h.arrays.size ≤ h'.arrays.size := by
  refine Nat.le_of_not_lt fun hlt => ?_
  have hsome := (s.arrays h'.arrays.size _ (Array.getElem?_eq_getElem hlt)).1
  rw [Array.getElem?_eq_none (Nat.le_refl _)] at hsome
  cases hsome

theorem items_eq (s : h.Spares m h') {r : ArrayRef} (hr : r < h.arrays.size) :
    h'.items r = h.items r := by
  have hsome := Array.getElem?_eq_getElem hr
  obtain ⟨hr', hl⟩ := s.arrays r _ hsome
  simp only [items, hr', hsome, Option.map_some, list, hl]

end Spares

/-! ### Values -/

theorem items_of_getElem? {r : ArrayRef} {l : ListRef} (hr : h.arrays[r]? = some l) :
    h.items r = h.list l := by
  simp only [items, hr, Option.map_some, Option.getD_some]

theorem Sound.below_of_mem_items (sound : h.Sound) {r : ArrayRef} {x : Item} (hx : x ∈ h.items r) :
    x.Below r := by
  cases hr : h.arrays[r]? with
  | none => simp [items, hr] at hx
  | some l =>
    obtain ⟨xs, hl, hxs⟩ := sound.arrays r l hr
    rw [items_of_getElem? hr, list, hl] at hx
    exact hxs x hx

/-- How deep arrays may nest does not matter beyond the place of an array. -/
theorem Sound.valuesWithin_eq (sound : h.Sound) {k : Nat}
    (hitems : ∀ r < k, h'.items r = h.items r) {n n' : Nat} {r : ArrayRef} (hn : r < n)
    (hn' : r < n') (hk : r < k) : h'.valuesWithin n' r = h.valuesWithin n r := by
  induction n generalizing n' r with
  | zero => exact absurd hn (Nat.not_lt_zero r)
  | succ n ih =>
    obtain ⟨n', rfl⟩ := Nat.exists_eq_succ_of_ne_zero (Nat.ne_of_gt (Nat.zero_lt_of_lt hn'))
    rw [valuesWithin, valuesWithin, hitems r hk]
    refine List.map_congr_left fun x hx => Item.toValue_congr fun s hs => ?_
    have hlt : s < r := sound.below_of_mem_items hx s hs
    exact ih (Nat.lt_of_lt_of_le hlt (Nat.le_of_lt_succ hn))
      (Nat.lt_of_lt_of_le hlt (Nat.le_of_lt_succ hn')) (Nat.lt_trans hlt hk)

theorem Sound.value_array (sound : h.Sound) {r : ArrayRef} (hr : r < h.arrays.size) :
    h.value (.array r) = .array ((h.items r).map h.value) := by
  obtain ⟨k, hk⟩ := Nat.exists_eq_succ_of_ne_zero (Nat.ne_of_gt (Nat.zero_lt_of_lt hr))
  have hvalues : h.valuesWithin h.arrays.size r = (h.items r).map h.value := by
    rw [hk, Nat.succ_eq_add_one, valuesWithin]
    refine List.map_congr_left fun x hx => Item.toValue_congr fun s hs => ?_
    have hlt : s < r := sound.below_of_mem_items hx s hs
    have hle : s < k := Nat.lt_of_lt_of_le hlt (Nat.le_of_lt_succ (hk ▸ hr))
    exact sound.valuesWithin_eq (fun _ _ => rfl) (hk ▸ Nat.lt_succ_of_lt hle) hle hlt
  exact congrArg Value.array hvalues

theorem Sound.value_spares (sound : h.Sound) (s : h.Spares m h') {x : Item}
    (hx : x.Below h.arrays.size) : h'.value x = h.value x := by
  refine Item.toValue_congr fun r hr => ?_
  have hlt : r < h.arrays.size := hx r hr
  exact sound.valuesWithin_eq (fun _ => s.items_eq) hlt (Nat.lt_of_lt_of_le hlt s.arrays_size) hlt

/-- Values are told by the arrays and their lists alone. -/
theorem value_congr (hlists : h'.lists = h.lists) (harrays : h'.arrays = h.arrays) :
    h'.value = h.value := by
  have hitems : h'.items = h.items := by
    funext r
    simp only [items, harrays]
    congr 2
    funext l
    rw [list, list, hlists]
  have hwithin (n : Nat) : h'.valuesWithin n = h.valuesWithin n := by
    induction n with
    | zero => rfl
    | succ n ih =>
      funext r
      rw [valuesWithin, valuesWithin, hitems, ih]
  funext x
  rw [value, value, harrays, hwithin]

/-! ### Steps -/

/-- A step from one sound heap to another. -/
structure Step (m : Mark) (h h' : Heap) : Prop extends Spares m h h' where
  sound : h.Sound
  sound' : h'.Sound

namespace Step

theorem refl (m : Mark) (sound : h.Sound) : h.Step m h := ⟨.refl m h, sound, sound⟩

theorem trans (s : h.Step m h') (s' : h'.Step m h'') : h.Step m h'' :=
  ⟨s.toSpares.trans s'.toSpares, s.sound, s'.sound'⟩

theorem weaken (s : h.Step m' h') (hle : m.Le m') : h.Step m h' :=
  ⟨s.toSpares.weaken hle, s.sound, s.sound'⟩

/-- What is there later is more. -/
theorem mark_le (s : h.Step m h') {b b' : Bool} (hb : b' = true → b = true) :
    (h.mark b).Le (h'.mark b') :=
  ⟨s.lists_size, s.dicts_size, hb⟩

end Step

namespace Mark.Le
variable {l : ListRef} {w : Bool}

/-- A step from here on spares more than is asked for where lists from `l` on may change. -/
theorem to_mark (hle : m.Le ⟨l, h.dicts.size, w⟩) (hl : l < h.lists.size) : m.Le (h.mark w) :=
  ⟨Nat.le_trans hle.lists (Nat.le_of_lt hl), hle.dicts, hle.assigns⟩

theorem later (hle : m.Le ⟨l, h.dicts.size, w⟩) (s : h.Step m' h') :
    m.Le ⟨l, h'.dicts.size, w⟩ :=
  ⟨hle.lists, Nat.le_trans hle.dicts s.dicts_size, hle.assigns⟩

end Mark.Le

/-- The item is one of the heap, and stands for the value. -/
structure Shows (h : Heap) (x : Item) (v : Value) : Prop where
  below : x.Below h.arrays.size
  value : h.value x = v

theorem shows_value {x : Item} (hx : x.Below h.arrays.size) : h.Shows x (h.value x) := ⟨hx, rfl⟩

namespace Shows
variable {x : Item} {v : Value}

theorem mono (hx : h.Shows x v) (s : h.Step m h') : h'.Shows x v :=
  ⟨hx.below.mono s.arrays_size, (s.sound.value_spares s.toSpares hx.below).trans hx.value⟩

theorem undefined : h.Shows .undefined .undefined := ⟨nofun, rfl⟩

theorem null : h.Shows .null .null := ⟨nofun, rfl⟩

theorem bool (b : Bool) : h.Shows (.bool b) (.bool b) := ⟨nofun, rfl⟩

theorem int (i : Int) : h.Shows (.int i) (.int i) := ⟨nofun, rfl⟩

theorem float (f : Float) : h.Shows (.float f) (.float f) := ⟨nofun, rfl⟩

theorem string (s : Text) : h.Shows (.string s) (.string s) := ⟨nofun, rfl⟩

theorem ofPoints (cs : List Codepoint) : h.Shows (.ofPoints cs) (.ofPoints cs) := string _

theorem object (r : ObjectRef) : h.Shows (.object r) (.object r) := ⟨nofun, rfl⟩

theorem function (r : FunctionRef) : h.Shows (.function r) (.function r) :=
  ⟨nofun, rfl⟩

theorem eq_object {r : ObjectRef} (hx : h.Shows x (.object r)) : x = .object r := by
  have hvalue := hx.value
  cases x <;> cases hvalue
  rfl

theorem kind_eq (hx : h.Shows x v) : x.kind = v.kind := by
  rw [← hx.value]
  cases x <;> rfl

end Shows

theorem Shows.getD {x? : Option Item} {v? : Option Value} {x : Item} {v : Value}
    (hxv : Option.Rel h.Shows x? v?) (hx : h.Shows x v) : h.Shows (x?.getD x) (v?.getD v) := by
  cases hxv with
  | some hxv => exact hxv
  | none => exact hx

/-- The items stand for the values, one by one. -/
abbrev ShowsAll (h : Heap) : List Item → List Value → Prop := List.Forall₂ h.Shows

/-- The names and the items stand for the same names and the values. -/
abbrev ShowsSlots {κ : Type} (h : Heap) : Slots κ Item → Slots κ Value → Prop :=
  Slots.Related h.Shows

theorem ShowsAll.mono {xs : List Item} {vs : List Value} (hxs : h.ShowsAll xs vs)
    (s : h.Step m h') : h'.ShowsAll xs vs :=
  hxs.imp fun _ _ hx => hx.mono s

theorem ShowsSlots.mono {κ : Type} {s : Slots κ Item} {t : Slots κ Value} (hs : h.ShowsSlots s t)
    (step : h.Step m h') : h'.ShowsSlots s t :=
  hs.imp fun _ _ hx => ⟨hx.1, hx.2.mono step⟩

theorem showsAll_strings (ss : List Text) : h.ShowsAll (ss.map .string) (ss.map .string) := by
  induction ss with
  | nil => exact .nil
  | cons s ss ih => exact .cons (.string s) ih

theorem showsAll_undefined (n : Nat) :
    h.ShowsAll (List.replicate n .undefined) (List.replicate n .undefined) := by
  induction n with
  | zero => exact .nil
  | succ n ih => exact .cons .undefined ih

theorem showsAll_map {xs : List Item} (hxs : ∀ x ∈ xs, x.Below h.arrays.size) :
    h.ShowsAll xs (xs.map h.value) := by
  rw [ShowsAll, List.forall₂_map_right_iff, List.forall₂_same]
  exact fun x hx => shows_value (hxs x hx)

theorem ShowsAll.map_eq {xs : List Item} {vs : List Value} (hxs : h.ShowsAll xs vs) :
    xs.map h.value = vs := by
  induction hxs with
  | nil => rfl
  | cons hx _ ih => rw [List.map_cons, hx.value, ih]

theorem ShowsAll.below {xs : List Item} {vs : List Value} (hxs : h.ShowsAll xs vs) :
    ∀ x ∈ xs, x.Below h.arrays.size := by
  intro x hx
  induction hxs with
  | nil => cases hx
  | cons hshows _ ih =>
    rcases List.mem_cons.mp hx with rfl | hx
    · exact hshows.below
    · exact ih hx

theorem showsSlots_mapValues {κ : Type} {s : Slots κ Item}
    (hs : ∀ e ∈ s, e.2.Below h.arrays.size) : h.ShowsSlots s (s.mapValues h.value) := by
  rw [ShowsSlots, Slots.Related, Slots.mapValues, List.forall₂_map_right_iff, List.forall₂_same]
  exact fun e he => ⟨rfl, shows_value (hs e he)⟩

theorem ShowsSlots.mapValues_eq {κ : Type} {s : Slots κ Item} {t : Slots κ Value}
    (hs : h.ShowsSlots s t) : s.mapValues h.value = t := by
  induction hs with
  | nil => rfl
  | cons hx _ ih =>
    exact congrArg₂ List.cons (Prod.ext hx.1 hx.2.value) ih

theorem ShowsSlots.below {κ : Type} {s : Slots κ Item} {t : Slots κ Value}
    (hs : h.ShowsSlots s t) : ∀ e ∈ s, e.2.Below h.arrays.size := by
  intro e he
  induction hs with
  | nil => cases he
  | cons hx _ ih =>
    rcases List.mem_cons.mp he with rfl | he
    · exact hx.2.below
    · exact ih he

theorem Sound.shows_items (sound : h.Sound) {r : ArrayRef} {v : Value}
    (hx : h.Shows (.array r) v) : ∃ vs, v = .array vs ∧ h.ShowsAll (h.items r) vs := by
  have hr : r < h.arrays.size := hx.below r rfl
  refine ⟨_, hx.value.symm.trans (sound.value_array hr), showsAll_map fun x hmem => ?_⟩
  exact (sound.below_of_mem_items hmem).mono (Nat.le_of_lt hr)

theorem Sound.shows_items_of_array (sound : h.Sound) {r : ArrayRef} {vs : List Value}
    (hx : h.Shows (.array r) (.array vs)) : h.ShowsAll (h.items r) vs := by
  obtain ⟨vs', heq, hvs⟩ := sound.shows_items hx
  cases heq
  exact hvs

theorem Sound.shows_array (sound : h.Sound) {r : ArrayRef} {l : ListRef}
    (hr : h.arrays[r]? = some l) {vs : List Value} (hvs : h.ShowsAll (h.list l) vs) :
    h.Shows (.array r) (.array vs) := by
  have hlt : r < h.arrays.size := (Array.getElem?_eq_some_iff.mp hr).1
  refine ⟨fun s hs => ?_, ?_⟩
  · cases hs
    exact hlt
  · rw [sound.value_array hlt, items_of_getElem? hr, hvs.map_eq]

/-! ### The store -/

theorem store_slots (h : Heap) (r : ObjectRef) :
    h.store.slots r = (h.slots r).mapValues h.value := by
  simp only [Store.slots, store, Array.getElem?_map, slots]
  cases h.objects[r]? <;> rfl

theorem store_frame (h : Heap) (r : FrameRef) :
    h.store.frame r = ⟨(h.frame r).vars.mapValues h.value, (h.frame r).tests⟩ := by
  simp only [Store.frame, store, Array.getElem?_map, frame]
  cases h.frames[r]? <;> rfl

theorem Sound.shows_slots (sound : h.Sound) (r : ObjectRef) :
    h.ShowsSlots (h.slots r) (h.store.slots r) := by
  rw [store_slots]
  refine showsSlots_mapValues fun e he => ?_
  cases hr : h.objects[r]? with
  | none => simp [slots, hr] at he
  | some d =>
    obtain ⟨s, hd, hs⟩ := sound.objects r d hr
    simp only [slots, hr, Option.map_some, Option.getD_some, dict, hd] at he
    exact hs e he

theorem Sound.shows_vars (sound : h.Sound) (r : FrameRef) :
    h.ShowsSlots (h.frame r).vars (h.store.frame r).vars := by
  rw [store_frame]
  refine showsSlots_mapValues fun e he => ?_
  cases hr : h.frames[r]? with
  | none => simp [frame, hr] at he
  | some f =>
    simp only [frame, hr, Option.getD_some] at he
    exact sound.frames f (Array.mem_of_getElem? hr) e he

end Heap
end ChatTemplate
