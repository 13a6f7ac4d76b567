import ChatTemplate.Proofs.Heap.Sound
import ChatTemplate.Proofs.Store.Basic

/-!
# The steps of a heap

What is made is new, and what is changed in place belongs to no array and no object, but for the
dictionary of an object that is assigned to. So each of these is a `Heap.Step`.
-/

namespace ChatTemplate.Heap
variable {h h' : Heap} {m : Mark} {w : Bool}

/-- A list with its items that belongs to no array. -/
structure OwnsList (h : Heap) (l : ListRef) (xs : List Item) : Prop where
  list : h.lists[l]? = some xs
  loose : ∀ r : ArrayRef, h.arrays[r]? ≠ some l

/-- A dictionary with its slots that belongs to no object. -/
structure OwnsDict (h : Heap) (d : DictRef) (s : Slots Text Item) : Prop where
  dict : h.dicts[d]? = some s
  loose : ∀ r : ObjectRef, h.objects[r]? ≠ some d

namespace OwnsList
variable {l : ListRef} {xs : List Item}

theorem list_eq (own : h.OwnsList l xs) : h.list l = xs := by
  rw [Heap.list, own.list, Option.getD_some]

theorem lt_size (own : h.OwnsList l xs) : l < h.lists.size :=
  (Array.getElem?_eq_some_iff.mp own.list).1

theorem mono (own : h.OwnsList l xs) (s : h.Step m h') (hl : l < m.lists) : h'.OwnsList l xs where
  list := (s.lists l hl).trans own.list
  loose r hr := by
    rcases s.newArrays r l hr with hold | hle
    · exact own.loose r hold
    · exact absurd hl (Nat.not_lt.mpr hle)

end OwnsList

namespace OwnsDict
variable {d : DictRef} {s : Slots Text Item}

theorem dict_eq (own : h.OwnsDict d s) : h.dict d = s := by
  rw [Heap.dict, own.dict, Option.getD_some]

theorem lt_size (own : h.OwnsDict d s) : d < h.dicts.size :=
  (Array.getElem?_eq_some_iff.mp own.dict).1

theorem mono (own : h.OwnsDict d s) (step : h.Step m h') (hd : d < m.dicts) : h'.OwnsDict d s where
  dict := (step.dicts d hd own.loose).trans own.dict
  loose r hr := by
    rcases step.newObjects r d hr with hold | hle
    · exact own.loose r hold
    · exact absurd hd (Nat.not_lt.mpr hle)

end OwnsDict

/-- A step that changes nothing but lists and dictionaries of the caller's own, or adds to the
arrays, cannot be seen. -/
theorem Step.store_eq (s : h.Step m h') (hframes : h'.frames = h.frames)
    (hobjects : h'.objects = h.objects) (hfunctions : h'.functions = h.functions)
    (hdicts : ∀ (r : ObjectRef) (d : DictRef), h.objects[r]? = some d →
      h'.dicts[d]? = h.dicts[d]?) :
    h'.store = h.store := by
  have hvalue {κ : Type} {t : Slots κ Item} (ht : ∀ e ∈ t, e.2.Below h.arrays.size) :
      t.mapValues h'.value = t.mapValues h.value :=
    List.map_congr_left fun e he =>
      congrArg (Prod.mk e.1) (s.sound.value_spares s.toSpares (ht e he))
  simp only [store, hframes, hobjects, hfunctions, Store.mk.injEq, and_true]
  refine ⟨Array.map_congr_left fun f hf => ?_, Array.map_congr_left fun d hd => ?_⟩
  · rw [hvalue (s.sound.frames f hf)]
  · obtain ⟨r, hr⟩ := Array.getElem?_of_mem hd
    obtain ⟨t, hdict, ht⟩ := s.sound.objects r d hr
    have hsame : h'.dict d = t := by rw [dict, hdicts r d hr, hdict, Option.getD_some]
    have hold : h.dict d = t := by rw [dict, hdict, Option.getD_some]
    rw [hsame, hold, hvalue ht]

/-- What was there is at its place where more is added. -/
theorem getElem?_push_of_lt {α : Type} {xs : Array α} {i : Nat} (hi : i < xs.size) (x : α) :
    (xs.push x)[i]? = xs[i]? :=
  (Array.getElem?_push_lt hi).trans (Array.getElem?_eq_getElem hi).symm

theorem getElem?_push_of_some {α : Type} {xs : Array α} {i : Nat} {y : α} (hi : xs[i]? = some y)
    (x : α) : (xs.push x)[i]? = some y :=
  (getElem?_push_of_lt (Array.getElem?_eq_some_iff.mp hi).1 x).trans hi

theorem Sound.list_lt (sound : h.Sound) {r : ArrayRef} {l : ListRef} (hr : h.arrays[r]? = some l) :
    l < h.lists.size := by
  obtain ⟨xs, hl, -⟩ := sound.arrays r l hr
  exact (Array.getElem?_eq_some_iff.mp hl).1

theorem Sound.dict_lt (sound : h.Sound) {r : ObjectRef} {d : DictRef}
    (hr : h.objects[r]? = some d) : d < h.dicts.size := by
  obtain ⟨s, hd, -⟩ := sound.objects r d hr
  exact (Array.getElem?_eq_some_iff.mp hd).1

/-! ### Lists and dictionaries -/

theorem Sound.step_newList (sound : h.Sound) (xs : List Item) :
    h.Step (h.mark w) { h with lists := h.lists.push xs } where
  lists _ hl := getElem?_push_of_lt hl xs
  dicts _ _ _ := rfl
  arrays _ _ hr := ⟨hr, getElem?_push_of_lt (sound.list_lt hr) xs⟩
  objects _ _ := id
  assigned := Spares.assigned_none rfl fun _ _ _ => rfl
  newArrays _ _ := .inl
  newObjects _ _ := .inl
  lists_size := by simp
  dicts_size := Nat.le_refl _
  sound := sound
  sound' := by
    refine ⟨fun r l hr => ?_, sound.objects, sound.distinct, sound.frames⟩
    obtain ⟨ys, hl, hys⟩ := sound.arrays r l hr
    exact ⟨ys, getElem?_push_of_some hl xs, hys⟩

theorem ownsList_newList (sound : h.Sound) (xs : List Item) :
    OwnsList { h with lists := h.lists.push xs } h.lists.size xs where
  list := Array.getElem?_push_size
  loose _ hr := absurd (sound.list_lt hr) (Nat.lt_irrefl _)

theorem Sound.step_newDict (sound : h.Sound) (s : Slots Text Item) :
    h.Step (h.mark w) { h with dicts := h.dicts.push s } where
  lists _ _ := rfl
  dicts _ hd _ := getElem?_push_of_lt hd s
  arrays _ _ hr := ⟨hr, rfl⟩
  objects _ _ := id
  assigned := Spares.assigned_none rfl fun _ _ hr => getElem?_push_of_lt (sound.dict_lt hr) s
  newArrays _ _ := .inl
  newObjects _ _ := .inl
  lists_size := Nat.le_refl _
  dicts_size := by simp
  sound := sound
  sound' := by
    refine ⟨sound.arrays, fun r d hr => ?_, sound.distinct, sound.frames⟩
    obtain ⟨t, hd, ht⟩ := sound.objects r d hr
    exact ⟨t, getElem?_push_of_some hd s, ht⟩

theorem ownsDict_newDict (sound : h.Sound) (s : Slots Text Item) :
    OwnsDict { h with dicts := h.dicts.push s } h.dicts.size s where
  dict := Array.getElem?_push_size
  loose _ hr := absurd (sound.dict_lt hr) (Nat.lt_irrefl _)

/-- A list of the caller's own is changed in place. -/
theorem OwnsList.step_modify {l : ListRef} {xs : List Item} (own : h.OwnsList l xs)
    (sound : h.Sound) (f : List Item → List Item) :
    h.Step ⟨l, h.dicts.size, false⟩ { h with lists := h.lists.modify l f } := by
  have hother (r : ArrayRef) (k : ListRef) (hr : h.arrays[r]? = some k) :
      (h.lists.modify l f)[k]? = h.lists[k]? := by
    rw [Array.getElem?_modify, if_neg]
    rintro rfl
    exact own.loose r hr
  constructor
  · constructor
    case lists =>
      intro k hk
      exact (Array.getElem?_modify ..).trans (if_neg (Nat.ne_of_gt hk))
    case dicts => exact fun _ _ _ => rfl
    case arrays => exact fun r k hr => ⟨hr, hother r k hr⟩
    case objects => exact fun _ _ => id
    case assigned => exact Spares.assigned_none rfl fun _ _ _ => rfl
    case newArrays => exact fun _ _ => .inl
    case newObjects => exact fun _ _ => .inl
    case lists_size => exact Nat.le_of_eq Array.size_modify.symm
    case dicts_size => exact Nat.le_refl _
  · exact sound
  · refine ⟨fun r k hr => ?_, sound.objects, sound.distinct, sound.frames⟩
    obtain ⟨ys, hk, hys⟩ := sound.arrays r k hr
    exact ⟨ys, (hother r k hr).trans hk, hys⟩

theorem OwnsList.modify {l : ListRef} {xs : List Item} (own : h.OwnsList l xs)
    (f : List Item → List Item) : OwnsList { h with lists := h.lists.modify l f } l (f xs) where
  list := by
    rw [Array.getElem?_modify, if_pos rfl, own.list, Option.map_some]
  loose := own.loose

/-- A dictionary of the caller's own is changed in place. -/
theorem OwnsDict.step_modify {d : DictRef} {s : Slots Text Item} (own : h.OwnsDict d s)
    (sound : h.Sound) (f : Slots Text Item → Slots Text Item) :
    h.Step ⟨h.lists.size, d, false⟩ { h with dicts := h.dicts.modify d f } := by
  have hother (r : ObjectRef) (k : DictRef) (hr : h.objects[r]? = some k) :
      (h.dicts.modify d f)[k]? = h.dicts[k]? := by
    rw [Array.getElem?_modify, if_neg]
    rintro rfl
    exact own.loose r hr
  constructor
  · constructor
    case lists => exact fun _ _ => rfl
    case dicts =>
      intro k hk _
      exact (Array.getElem?_modify ..).trans (if_neg (Nat.ne_of_gt hk))
    case arrays => exact fun _ _ hr => ⟨hr, rfl⟩
    case objects => exact fun _ _ => id
    case assigned => exact Spares.assigned_none rfl hother
    case newArrays => exact fun _ _ => .inl
    case newObjects => exact fun _ _ => .inl
    case lists_size => exact Nat.le_refl _
    case dicts_size => exact Nat.le_of_eq Array.size_modify.symm
  · exact sound
  · refine ⟨sound.arrays, fun r k hr => ?_, sound.distinct, sound.frames⟩
    obtain ⟨t, hk, ht⟩ := sound.objects r k hr
    exact ⟨t, (hother r k hr).trans hk, ht⟩

theorem OwnsDict.modify {d : DictRef} {s : Slots Text Item} (own : h.OwnsDict d s)
    (f : Slots Text Item → Slots Text Item) :
    OwnsDict { h with dicts := h.dicts.modify d f } d (f s) where
  dict := by
    rw [Array.getElem?_modify, if_pos rfl, own.dict, Option.map_some]
  loose := own.loose

/-- What is changed in place of the caller's own cannot be seen. -/
theorem OwnsDict.getElem?_modify_of_object {d : DictRef} {s : Slots Text Item}
    (own : h.OwnsDict d s) (f : Slots Text Item → Slots Text Item) (r : ObjectRef) (k : DictRef)
    (hr : h.objects[r]? = some k) : (h.dicts.modify d f)[k]? = h.dicts[k]? := by
  rw [Array.getElem?_modify, if_neg]
  rintro rfl
  exact own.loose r hr

/-! ### Arrays and objects -/

theorem Sound.step_newArray (sound : h.Sound) {l : ListRef} {vs : List Value}
    (hl : l < h.lists.size) (hvs : h.ShowsAll (h.list l) vs) (hm : m.lists ≤ l) :
    h.Step m { h with arrays := h.arrays.push l } where
  lists _ _ := rfl
  dicts _ _ _ := rfl
  arrays _ _ hr := ⟨getElem?_push_of_some hr l, rfl⟩
  objects _ _ := id
  assigned := Spares.assigned_none rfl fun _ _ _ => rfl
  newArrays r k hr := by
    rw [Array.getElem?_push] at hr
    split at hr
    · cases hr
      exact .inr hm
    · exact .inl hr
  newObjects _ _ := .inl
  lists_size := Nat.le_refl _
  dicts_size := Nat.le_refl _
  sound := sound
  sound' := by
    have hsize : h.arrays.size ≤ (h.arrays.push l).size := by simp
    refine ⟨fun r k hr => ?_, fun r d hr => ?_, sound.distinct, fun f hf e he => ?_⟩
    · rw [Array.getElem?_push] at hr
      split at hr
      case isTrue heq =>
        cases hr
        refine ⟨h.list l, ?_, heq ▸ hvs.below⟩
        rw [list, Array.getElem?_eq_getElem hl, Option.getD_some]
      case isFalse => exact sound.arrays r k hr
    · obtain ⟨t, hd, ht⟩ := sound.objects r d hr
      exact ⟨t, hd, fun e he => (ht e he).mono hsize⟩
    · exact (sound.frames f hf e he).mono hsize

theorem Sound.step_newObject (sound : h.Sound) {d : DictRef} {s : Slots Text Item}
    {t : Slots Text Value} (own : h.OwnsDict d s) (hs : h.ShowsSlots s t) (hm : m.dicts ≤ d) :
    h.Step m { h with objects := h.objects.push d } where
  lists _ _ := rfl
  dicts _ _ _ := rfl
  arrays _ _ hr := ⟨hr, rfl⟩
  objects _ _ hr := getElem?_push_of_some hr d
  assigned := Spares.assigned_none rfl fun _ _ _ => rfl
  newArrays _ _ := .inl
  newObjects r k hr := by
    rw [Array.getElem?_push] at hr
    split at hr
    · cases hr
      exact .inr hm
    · exact .inl hr
  lists_size := Nat.le_refl _
  dicts_size := Nat.le_refl _
  sound := sound
  sound' := by
    refine ⟨sound.arrays, fun r k hr => ?_, fun r r' k hr hr' => ?_, sound.frames⟩
    · rw [Array.getElem?_push] at hr
      split at hr
      · cases hr
        exact ⟨s, own.dict, hs.below⟩
      · exact sound.objects r k hr
    · rw [Array.getElem?_push] at hr hr'
      split at hr <;> split at hr'
      case isTrue.isTrue h₁ h₂ => exact h₁.trans h₂.symm
      case isTrue.isFalse h₁ h₂ =>
        cases hr
        exact absurd hr' (own.loose r')
      case isFalse.isTrue h₁ h₂ =>
        cases hr'
        exact absurd hr (own.loose r)
      case isFalse.isFalse h₁ h₂ => exact sound.distinct r r' k hr hr'

theorem dict_modify {d : DictRef} (f : Slots Text Item → Slots Text Item) (hd : d < h.dicts.size)
    (as : List MemberAssignment) :
    Heap.dict { h with dicts := h.dicts.modify d f, assignments := as } d = f (h.dict d) := by
  simp [Heap.dict, Array.getElem?_modify, Array.getElem?_eq_getElem hd]

theorem dict_modify_of_ne {d k : DictRef} (f : Slots Text Item → Slots Text Item) (hk : d ≠ k)
    (as : List MemberAssignment) :
    Heap.dict { h with dicts := h.dicts.modify d f, assignments := as } k = h.dict k := by
  simp [Heap.dict, Array.getElem?_modify, hk]

theorem after_putSlot {r : ObjectRef} {d : DictRef} (hr : h.objects[r]? = some d) (name : Text)
    (x : Item) : (putSlot r name x).after h = { h with
      dicts := h.dicts.modify d (·.put name x)
      assignments := h.assignments ++ [MemberAssignment.mk r name x] } := by
  unfold putSlot
  rw [Run.after_modify, hr]

theorem after_putSlot_of_none {r : ObjectRef} (hr : h.objects[r]? = none) (name : Text) (x : Item) :
    (putSlot r name x).after h = h := by
  unfold putSlot
  rw [Run.after_modify, hr]

/-- An object is assigned to: the dictionary of no other object changes. -/
theorem Sound.step_putSlot_of_some (sound : h.Sound) {r : ObjectRef} {d : DictRef}
    (hr : h.objects[r]? = some d) (name : Text) {x : Item} (hx : x.Below h.arrays.size) :
    h.Step (h.mark true) { h with
      dicts := h.dicts.modify d (·.put name x)
      assignments := h.assignments ++ [⟨r, name, x⟩] } where
  lists _ _ := rfl
  dicts k _ hfree := by
    refine (Array.getElem?_modify ..).trans (if_neg ?_)
    rintro rfl
    exact hfree r hr
  arrays _ _ hr := ⟨hr, rfl⟩
  objects _ _ := id
  assigned := by
    refine ⟨[⟨r, name, x⟩], rfl, nofun, fun s k hs => ?_⟩
    simp only [Slots.afterAssignments, List.foldl_cons, List.foldl_nil]
    split
    case isTrue hrs =>
      obtain rfl : d = k := Option.some.inj (hr.symm.trans (hrs ▸ hs))
      exact dict_modify _ (sound.dict_lt hr) _
    case isFalse hrs =>
      have hne : d ≠ k := fun hdk => hrs (sound.distinct r s d hr (hdk ▸ hs))
      exact dict_modify_of_ne _ hne _
  newArrays _ _ := .inl
  newObjects _ _ := .inl
  lists_size := Nat.le_refl _
  dicts_size := Nat.le_of_eq Array.size_modify.symm
  sound := sound
  sound' := by
    refine ⟨sound.arrays, fun r' k hr' => ?_, sound.distinct, sound.frames⟩
    obtain ⟨t, hk, ht⟩ := sound.objects r' k hr'
    rw [Array.getElem?_modify]
    split
    · exact ⟨t.put name x, by rw [hk, Option.map_some], Slots.forall_put ht hx⟩
    · exact ⟨t, hk, ht⟩

theorem Sound.step_putSlot (sound : h.Sound) (r : ObjectRef) (name : Text) {x : Item}
    (hx : x.Below h.arrays.size) : h.Step (h.mark true) ((putSlot r name x).after h) := by
  cases hr : h.objects[r]? with
  | none =>
    rw [after_putSlot_of_none hr]
    exact .refl _ sound
  | some d =>
    rw [after_putSlot hr]
    exact sound.step_putSlot_of_some hr name hx

/-! ### Frames and functions -/

theorem Sound.step_frames (sound : h.Sound) {frames : Array HeapFrame}
    (hframes : ∀ f ∈ frames, ∀ e ∈ f.vars, e.2.Below h.arrays.size) :
    h.Step (h.mark w) { h with frames := frames } where
  toSpares := ⟨fun _ _ => rfl, fun _ _ _ => rfl, fun _ _ hr => ⟨hr, rfl⟩, fun _ _ => id,
    Spares.assigned_none rfl fun _ _ _ => rfl, fun _ _ => .inl, fun _ _ => .inl, Nat.le_refl _,
    Nat.le_refl _⟩
  sound := sound
  sound' := ⟨sound.arrays, sound.objects, sound.distinct, hframes⟩

theorem Sound.step_functions (sound : h.Sound) (functions : Array Function) :
    h.Step (h.mark w) { h with functions := functions } where
  toSpares := ⟨fun _ _ => rfl, fun _ _ _ => rfl, fun _ _ hr => ⟨hr, rfl⟩, fun _ _ => id,
    Spares.assigned_none rfl fun _ _ _ => rfl, fun _ _ => .inl, fun _ _ => .inl, Nat.le_refl _,
    Nat.le_refl _⟩
  sound := sound
  sound' := ⟨sound.arrays, sound.objects, sound.distinct, sound.frames⟩

end ChatTemplate.Heap
