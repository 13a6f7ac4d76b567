import ChatTemplate.Proofs.Eval.Respects
import ChatTemplate.Proofs.Eval.Simulation
import ChatTemplate.Proofs.Heap.Steps

/-!
# Runs that mirror evaluations

`Heap.Mirrors m R h x y`: from the heap `h` the run `x` takes a step that spares what the mark `m`
says, and what it answers and leaves stands for what the evaluation `y` answers and leaves from the
store that the heap looks like. This goes through sequencing. Where a run makes or changes a list or
a dictionary of its own, or only looks, the evaluation has nothing to do.
-/

namespace ChatTemplate.Heap
variable {α β γ δ : Type} {m m' : Mark} {w : Bool} {h h' : Heap}

/-- The answers are the same. -/
abbrev Same : Heap → α → α → Prop := fun _ => Eq

/-- What is related stays so. -/
def Stable (R : Heap → α → β → Prop) : Prop :=
  ∀ ⦃m h h' a b⦄, h.Step m h' → R h a b → R h' a b

theorem stable_same : Stable (Same (α := α)) := fun _ _ _ _ _ _ => id

theorem stable_shows : Stable Shows := fun _ _ _ _ _ s hx => hx.mono s

/-- The names are the same, and the items stand for the values. -/
def ShowsEntry {κ : Type} (h : Heap) (e : κ × Item) (e' : κ × Value) : Prop :=
  e.1 = e'.1 ∧ h.Shows e.2 e'.2

theorem stable_showsEntry {κ : Type} : Stable (ShowsEntry (κ := κ)) :=
  fun _ _ _ _ _ s he => ⟨he.1, he.2.mono s⟩

/-- The run does to the heap what the evaluation does to the store. -/
def Mirrors (m : Mark) (R : Heap → α → β → Prop) (h : Heap) (x : Run α) (y : Eval β) : Prop :=
  h.Sound → h.Step m (x.after h) ∧ (x.after h).store = y.after h.store ∧
    SameOutcome (R (x.after h)) (x.result h) (y.result h.store)

/-- The run spares all that is there, but for the dictionaries of objects where it may assign to
these. -/
abbrev Follows (w : Bool) (R : Heap → α → β → Prop) (h : Heap) (x : Run α) (y : Eval β) : Prop :=
  Mirrors (h.mark w) R h x y

namespace Mirrors
variable {R : Heap → α → β → Prop} {S : Heap → γ → δ → Prop} {x : Run α} {y : Eval β}

theorem of_sound (hxy : h.Sound → Mirrors m R h x y) : Mirrors m R h x y :=
  fun sound => hxy sound sound

theorem weaken (hxy : Mirrors m' R h x y) (hle : m.Le m') : Mirrors m R h x y :=
  fun sound => (hxy sound).imp_left (Step.weaken · hle)

theorem pure {a : α} {b : β} (hab : R h a b) : Mirrors m R h (Pure.pure a) (Pure.pure b) :=
  fun sound => ⟨.refl m sound, rfl, .ok hab⟩

theorem throw (f : Fault) : Mirrors m R h (MonadExcept.throw f) (MonadExcept.throw f) :=
  fun sound => ⟨.refl m sound, rfl, .error f⟩

theorem fail (c : Cause) : Mirrors m R h (Heap.fail c) (Eval.fail c) := throw _

theorem bind {f : α → Run γ} {g : β → Eval δ} (hxy : Mirrors m' R h x y) (hle : m.Le m')
    (hf : ∀ h' a b, h.Step m' h' → R h' a b → Mirrors m S h' (f a) (g b)) :
    Mirrors m S h (x >>= f) (y >>= g) := by
  intro sound
  obtain ⟨step, hstore, houtcome⟩ := hxy sound
  rw [Run.after_bind, Run.result_bind, Eval.after_bind, Eval.result_bind]
  rcases houtcome.answers with ⟨e, hx, hy⟩ | ⟨a, b, hx, hy, hab⟩
  · rw [hx, hy]
    exact ⟨step.weaken hle, hstore, .error e⟩
  · rw [hx, hy]
    obtain ⟨step', hstore', houtcome'⟩ := hf _ a b step hab step.sound'
    rw [hstore] at hstore' houtcome'
    exact ⟨(step.weaken hle).trans step', hstore', houtcome'⟩

theorem fail_bind (c : Cause) {f : α → Run γ} {g : β → Eval δ} :
    Mirrors m S h (Heap.fail c >>= f) (Eval.fail c >>= g) :=
  fun sound => ⟨.refl m sound, rfl, .error _⟩

/-- What would come after a failure does not matter. -/
theorem failed_bind (c : Cause) {f : α → Run γ} :
    Mirrors m S h (Heap.fail c >>= f) (Eval.fail c) :=
  fun sound => ⟨.refl m sound, rfl, .error _⟩

/-- The run takes a step that the evaluation does not see. -/
theorem left {f : α → Run γ} {y : Eval δ} {a : α} (hresult : x.result h = .ok a)
    (hafter : x.after h = h') (hle : m.Le m') (hstep : h.Sound → h.Step m' h')
    (hstore : h.Sound → h'.store = h.store)
    (hf : h.Step m' h' → Mirrors m S h' (f a) y) : Mirrors m S h (x >>= f) y := by
  intro sound
  obtain ⟨step, hstores, houtcome⟩ := hf (hstep sound) (hstep sound).sound'
  rw [Run.after_bind, Run.result_bind, hresult, hafter]
  rw [hstore sound] at hstores houtcome
  exact ⟨((hstep sound).weaken hle).trans step, hstores, houtcome⟩

theorem get_bind {f : Heap → Run γ} {y : Eval δ} (hf : Mirrors m S h (f h) y) :
    Mirrors m S h (get >>= f) y :=
  left rfl rfl (.refl m) (Step.refl m) (fun _ => rfl) fun _ => hf

/-- Both ask for what is there. -/
theorem get_both {f : Heap → Run γ} {g : Store → Eval δ} (hf : Mirrors m S h (f h) (g h.store)) :
    Mirrors m S h (get >>= f) (get >>= g) :=
  get_bind fun sound => hf sound

/-- The run asks the heap for something. -/
theorem ask (q : Heap → α) {f : α → Run γ} {y : Eval δ} (hf : Mirrors m S h (f (q h)) y) :
    Mirrors m S h ((do return q (← get)) >>= f) y :=
  left rfl rfl (.refl m) (Step.refl m) (fun _ => rfl) fun _ => hf

theorem rethrow (g : Fault → Fault) (hxy : Mirrors m R h x y) :
    Mirrors m R h (tryCatch x fun f => MonadExcept.throw (g f))
      (tryCatch y fun f => MonadExcept.throw (g f)) := by
  intro sound
  obtain ⟨step, hstore, houtcome⟩ := hxy sound
  rw [Run.after_tryCatch_throw, Run.result_tryCatch_throw, Eval.after_tryCatch_throw,
    Eval.result_tryCatch_throw]
  refine ⟨step, hstore, ?_⟩
  rcases houtcome.answers with ⟨e, hx, hy⟩ | ⟨a, b, hx, hy, hab⟩
  · rw [hx, hy]
    exact .error _
  · rw [hx, hy]
    exact .ok hab

end Mirrors

namespace Follows
variable {R : Heap → α → β → Prop} {S : Heap → γ → δ → Prop} {x : Run α} {y : Eval β}

theorem bind {f : α → Run γ} {g : β → Eval δ} (hxy : Follows w R h x y)
    (hf : ∀ h' a b, h.Step (h.mark w) h' → R h' a b → Follows w S h' (f a) (g b)) :
    Follows w S h (x >>= f) (y >>= g) :=
  Mirrors.bind hxy (.refl _) fun h' a b s hab => (hf h' a b s hab).weaken (s.mark_le id)

theorem mapM {f : α → Run γ} {g : β → Eval δ} (hR : Stable R) (hS : Stable S)
    (hf : ∀ h' a b, h.Step (h.mark w) h' → R h' a b → Follows w S h' (f a) (g b)) {as : List α}
    {bs : List β} (has : List.Forall₂ (R h) as bs) :
    Follows w (fun h => List.Forall₂ (S h)) h (as.mapM f) (bs.mapM g) := by
  induction as generalizing h bs with
  | nil =>
    cases has
    exact .pure .nil
  | cons a as ih =>
    obtain ⟨b, bs, hab, hrest, rfl⟩ := List.forall₂_cons_left_iff.mp has
    rw [List.mapM_cons, List.mapM_cons]
    refine .of_sound fun sound => ?_
    refine (hf h a b (.refl _ sound) hab).bind fun h₁ c d s hcd => ?_
    refine (ih (fun h' a b s' hab => hf h' a b (s.trans (s'.weaken (s.mark_le id))) hab)
      (hrest.imp fun _ _ => hR s)).bind fun h₂ cs ds s' hcds => ?_
    exact .pure (.cons (hS s' hcd) hcds)

end Follows

/-! ### Looking -/

/-- What an item and the value that it stands for are. -/
inductive Shown (h : Heap) : Item → Value → Prop
  | undefined : Shown h .undefined .undefined
  | null : Shown h .null .null
  | bool (b : Bool) : Shown h (.bool b) (.bool b)
  | int (i : Int) : Shown h (.int i) (.int i)
  | float (f : Float) : Shown h (.float f) (.float f)
  | string (s : Text) : Shown h (.string s) (.string s)
  | array {r : ArrayRef} {vs : List Value} (hvs : h.ShowsAll (h.items r) vs) :
      Shown h (.array r) (.array vs)
  | object (r : ObjectRef) : Shown h (.object r) (.object r)
  | function (r : FunctionRef) : Shown h (.function r) (.function r)

theorem Sound.shown (sound : h.Sound) {x : Item} {v : Value} (hx : h.Shows x v) : h.Shown x v := by
  cases x with
  | array r =>
    obtain ⟨vs, rfl, hvs⟩ := sound.shows_items hx
    exact .array hvs
  | _ =>
    obtain rfl := hx.value
    constructor

namespace Mirrors
section
variable {S : Heap → γ → δ → Prop} {y : Eval δ}

theorem listOf_bind {l : ListRef} {f : List Item → Run γ} (hf : Mirrors m S h (f (h.list l)) y) :
    Mirrors m S h (listOf l >>= f) y :=
  .ask (·.list l) hf

theorem dictOf_bind {d : DictRef} {f : Slots Text Item → Run γ}
    (hf : Mirrors m S h (f (h.dict d)) y) : Mirrors m S h (dictOf d >>= f) y :=
  .ask (·.dict d) hf

theorem itemsOf_bind {r : ArrayRef} {f : List Item → Run γ}
    (hf : Mirrors m S h (f (h.items r)) y) : Mirrors m S h (itemsOf r >>= f) y :=
  .ask (·.items r) hf

theorem valueOf_bind {x : Item} {v : Value} (hx : h.Shows x v) {f : Value → Run γ}
    (hf : Mirrors m S h (f v) y) : Mirrors m S h (valueOf x >>= f) y :=
  .ask (·.value x) (hx.value ▸ hf)

theorem valuesOf_bind {xs : List Item} {vs : List Value} (hxs : h.ShowsAll xs vs)
    {f : List Value → Run γ} (hf : Mirrors m S h (f vs) y) :
    Mirrors m S h (valuesOf xs >>= f) y :=
  .ask (xs.map ·.value) (hxs.map_eq ▸ hf)

theorem slotsOf_bind (r : ObjectRef) {f : Slots Text Item → Run γ} {g : Slots Text Value → Eval δ}
    (hf : h.ShowsSlots (h.slots r) (h.store.slots r) →
      Mirrors m S h (f (h.slots r)) (g (h.store.slots r))) :
    Mirrors m S h (slotsOf r >>= f) (Eval.slotsOf r >>= g) :=
  fun sound => hf (sound.shows_slots r) sound

/-- Both ask the store that the heap looks like, perhaps about items and what they stand for. -/
theorem look_of {R : Heap → α → β → Prop} {q : Eval α} {q' : Eval β} (hq' : q'.Respects Eq)
    (hqq : h.Sound → SameOutcome (R h) (q.result h.store) (q'.result h.store)) :
    Mirrors m R h (Heap.look q) q' := by
  intro sound
  have hresult : (Heap.look q).result h = q.result h.store := by
    unfold Heap.look
    rw [Run.result_bind, Run.result_get, Run.after_get]
    dsimp only
    cases q.result h.store <;> rfl
  have hafter : (Heap.look q).after h = h := by
    unfold Heap.look
    rw [Run.after_bind, Run.result_get, Run.after_get]
    dsimp only
    cases q.result h.store <;> rfl
  rw [hresult, hafter, ← hq' h.store]
  exact ⟨.refl m sound, rfl, hqq sound⟩

theorem look {q : Eval α} (hq : q.Respects Eq) : Mirrors m Same h (Heap.look q) q := by
  refine look_of hq fun _ => ?_
  cases q.result h.store with
  | ok a => exact .ok rfl
  | error f => exact .error f

variable {x : Item} {v : Value}

theorem textOf (hx : h.Shows x v) : Mirrors m Same h (Heap.textOf x) (Eval.textOf v) :=
  valueOf_bind hx (look (.textOf v))

theorem truthy (hx : h.Shows x v) : Mirrors m Same h (Heap.truthy x) (Eval.truthy v) :=
  valueOf_bind hx (look (.truthy v))

end

/-! ### Making -/

theorem newList_bind {xs : List Item} {S : Heap → γ → δ → Prop} {f : ListRef → Run γ} {y : Eval δ}
    (hle : m.Le (h.mark w))
    (hf : ∀ h', h.Step (h.mark w) h' → h'.OwnsList h.lists.size xs →
      Mirrors m S h' (f h.lists.size) y) : Mirrors m S h (newList xs >>= f) y :=
  .left rfl rfl hle (fun sound => sound.step_newList xs)
    (fun sound => (sound.step_newList (w := w) xs).store_eq rfl rfl rfl fun _ _ _ => rfl)
    fun s => hf _ s (ownsList_newList s.sound xs)

theorem newDict_bind {t : Slots Text Item} {S : Heap → γ → δ → Prop} {f : DictRef → Run γ}
    {y : Eval δ} (hle : m.Le (h.mark w))
    (hf : ∀ h', h.Step (h.mark w) h' → h'.OwnsDict h.dicts.size t →
      Mirrors m S h' (f h.dicts.size) y) : Mirrors m S h (newDict t >>= f) y := by
  refine .left rfl rfl hle (fun sound => sound.step_newDict t) (fun sound => ?_)
    fun s => hf _ s (ownsDict_newDict s.sound t)
  exact (sound.step_newDict (w := w) t).store_eq rfl rfl rfl fun _ _ hr =>
    getElem?_push_of_lt (sound.dict_lt hr) t

theorem newArray {l : ListRef} {vs : List Value} (hl : l < h.lists.size)
    (hvs : h.ShowsAll (h.list l) vs) (hm : m.lists ≤ l) :
    Mirrors m Shows h (Heap.newArray l) (Pure.pure (.array vs)) := by
  intro sound
  have step := sound.step_newArray hl hvs hm
  refine ⟨step, step.store_eq rfl rfl rfl fun _ _ _ => rfl, .ok ?_⟩
  exact step.sound'.shows_array Array.getElem?_push_size (hvs.mono step)

theorem arrayOf {xs : List Item} {vs : List Value} (hxs : h.ShowsAll xs vs) :
    Follows w Shows h (Heap.arrayOf xs) (Pure.pure (.array vs)) :=
  newList_bind (w := w) (.refl _) fun _ s own =>
    newArray own.lt_size (own.list_eq ▸ hxs.mono s) (Nat.le_refl _)

theorem newObject {d : DictRef} {s : Slots Text Item} {t : Slots Text Value}
    (own : h.OwnsDict d s) (hs : h.ShowsSlots s t) (hm : m.dicts ≤ d) :
    Mirrors m Shows h (Heap.newObject d) (Eval.newObject t) := by
  intro sound
  have step := sound.step_newObject own hs hm
  refine ⟨step, ?_, .ok ?_⟩
  · change Heap.store { h with objects := h.objects.push d } = h.store.pushObject t
    have hslots : Slots.mapValues h.value (h.dict d) = t := by rw [own.dict_eq, hs.mapValues_eq]
    have hvalue : Heap.value { h with objects := h.objects.push d } = h.value := value_congr rfl rfl
    simp only [Heap.store, Store.pushObject, Array.map_push, hvalue, ← hslots]
    rfl
  · have hsize : h.store.objects.size = h.objects.size := Array.size_map
    rw [hsize]
    exact .object _

theorem objectOf {s : Slots Text Item} {t : Slots Text Value} (hs : h.ShowsSlots s t) :
    Follows w Shows h (Heap.objectOf s) (Eval.newObject t) :=
  newDict_bind (w := w) (.refl _) fun _ step own => newObject own (hs.mono step) (Nat.le_refl _)

theorem newFunction (f : Function) :
    Follows w Shows h (Heap.newFunction f) (Eval.newFunction f) := by
  intro sound
  refine ⟨sound.step_functions _, ?_, .ok (.function _)⟩
  have hvalue : Heap.value { h with functions := h.functions.push f } = h.value :=
    value_congr rfl rfl
  change Heap.store { h with functions := h.functions.push f } = h.store.pushFunction f
  simp only [Heap.store, Store.pushFunction, hvalue]
  rfl

mutual

theorem fresh {h : Heap} (v : Value) : Follows w Shows h (Heap.fresh v) (Pure.pure v) := by
  unfold Heap.fresh
  cases v with
  | undefined => exact .pure .undefined
  | null => exact .pure .null
  | bool b => exact .pure (.bool b)
  | int i => exact .pure (.int i)
  | float f => exact .pure (.float f)
  | string s => exact .pure (.string s)
  | array vs =>
    rw [← pure_bind vs fun vs => Pure.pure (Value.array vs)]
    exact (freshItems vs).bind fun _ _ _ _ hxs => arrayOf hxs
  | object r => exact .pure (.object r)
  | function r => exact .pure (.function r)

theorem freshItems {h : Heap} (vs : List Value) :
    Follows w ShowsAll h (Heap.freshItems vs) (Pure.pure vs) := by
  unfold Heap.freshItems
  cases vs with
  | nil => exact .pure .nil
  | cons v vs =>
    rw [← pure_bind v fun v => Pure.pure (v :: vs)]
    refine (fresh v).bind fun _ _ v _ hx => ?_
    rw [← pure_bind vs fun vs => Pure.pure (v :: vs)]
    refine (freshItems vs).bind fun _ _ _ s hxs => ?_
    exact .pure (.cons (hx.mono s) hxs)

end

theorem made {q : Eval Value} (hq : q.Respects Eq) : Follows w Shows h (Heap.made q) q := by
  have hrun : Follows w Shows h (Heap.look q >>= Heap.fresh) (q >>= Pure.pure) := by
    refine Follows.bind (R := Same) (look hq) fun h' v _ _ heq => ?_
    obtain rfl := heq
    exact fresh v
  rwa [bind_pure] at hrun

/-! ### Changing in place -/

section InPlace
variable {S : Heap → γ → δ → Prop} {y : Eval δ}

theorem append_bind {l : ListRef} {xs ys : List Item} {f : Unit → Run γ} (own : h.OwnsList l xs)
    (hle : m.Le ⟨l, h.dicts.size, false⟩)
    (hf : ∀ h', h.Step ⟨l, h.dicts.size, false⟩ h' → h'.OwnsList l (xs ++ ys) →
      Mirrors m S h' (f ()) y) : Mirrors m S h (append l ys >>= f) y :=
  .left rfl rfl hle (own.step_modify · _)
    (fun sound => (own.step_modify sound _).store_eq rfl rfl rfl fun _ _ _ => rfl)
    fun s => hf _ s (own.modify (· ++ ys))

theorem reverse_bind {l : ListRef} {xs : List Item} {f : Unit → Run γ} (own : h.OwnsList l xs)
    (hle : m.Le ⟨l, h.dicts.size, false⟩)
    (hf : ∀ h', h.Step ⟨l, h.dicts.size, false⟩ h' → h'.OwnsList l xs.reverse →
      Mirrors m S h' (f ()) y) : Mirrors m S h (reverse l >>= f) y :=
  .left rfl rfl hle (own.step_modify · _)
    (fun sound => (own.step_modify sound _).store_eq rfl rfl rfl fun _ _ _ => rfl)
    fun s => hf _ s (own.modify List.reverse)

theorem put_bind {d : DictRef} {t : Slots Text Item} {name : Text} {x : Item} {f : Unit → Run γ}
    (own : h.OwnsDict d t) (hle : m.Le ⟨h.lists.size, d, false⟩)
    (hf : ∀ h', h.Step ⟨h.lists.size, d, false⟩ h' → h'.OwnsDict d (t.put name x) →
      Mirrors m S h' (f ()) y) : Mirrors m S h (put d name x >>= f) y :=
  .left rfl rfl hle (own.step_modify · _)
    (fun sound => (own.step_modify sound _).store_eq rfl rfl rfl (own.getElem?_modify_of_object _))
    fun s => hf _ s (own.modify (·.put name x))

theorem pop_bind {d : DictRef} {t : Slots Text Item} {name : Text} {f : Option Item → Run γ}
    (own : h.OwnsDict d t) (hle : m.Le ⟨h.lists.size, d, false⟩)
    (hf : ∀ h', h.Step ⟨h.lists.size, d, false⟩ h' → h'.OwnsDict d (t.remove name) →
      Mirrors m S h' (f (t.lookup name)) y) : Mirrors m S h (pop d name >>= f) y :=
  .left (own.dict_eq ▸ rfl) rfl hle (own.step_modify · _)
    (fun sound => (own.step_modify sound _).store_eq rfl rfl rfl (own.getElem?_modify_of_object _))
    fun s => hf _ s (own.modify (·.remove name))

end InPlace

/-! ### Scopes -/

theorem innerScope (scope : Scope) :
    Follows w Same h (Heap.innerScope scope) (Eval.innerScope scope) := by
  intro sound
  refine ⟨sound.step_frames fun f hf e he => ?_, ?_, ?_⟩
  · rcases Array.mem_push.mp hf with hf | rfl
    · exact sound.frames f hf e he
    · cases he
  · change Heap.store { h with frames := h.frames.push ⟨[], []⟩ } = h.store.pushFrame []
    have hvalue : Heap.value { h with frames := h.frames.push ⟨[], []⟩ } = h.value :=
      value_congr rfl rfl
    simp only [Heap.store, Store.pushFrame, Array.map_push, hvalue]
    rfl
  · have hsize : h.store.frames.size = h.frames.size := Array.size_map
    refine .ok ?_
    rw [hsize]

theorem bindName {x : Item} {v : Value} (hx : h.Shows x v) (scope : Scope) (name : String) :
    Follows w Same h (Heap.bind scope name x) (Eval.bind scope name v) := by
  intro sound
  refine ⟨sound.step_frames fun f hf e he => ?_, ?_, .ok rfl⟩
  · obtain ⟨i, hi, rfl⟩ := Array.mem_iff_getElem.mp hf
    rw [Array.getElem_modify] at he
    split at he
    · exact Slots.forall_put (sound.frames _ (Array.getElem_mem _)) hx.below e he
    · exact sound.frames _ (Array.getElem_mem _) e he
  · change Heap.store { h with frames := _ } = h.store.bind scope.inner name v
    have hvalue : Heap.value { h with frames := h.frames.modify scope.inner fun f =>
        { f with vars := f.vars.put name x } } = h.value := value_congr rfl rfl
    simp only [Heap.store, Store.bind, hvalue, Store.mk.injEq, and_true]
    refine ⟨Array.ext_getElem? fun i => ?_, rfl⟩
    simp only [Array.getElem?_map, Array.getElem?_modify]
    split
    · rw [Option.map_map, Option.map_map]
      refine congrArg (Option.map · _) (funext fun f => ?_)
      simp only [Function.comp_apply, ← hx.value, Frame.mk.injEq, and_true]
      exact (Slots.put_map h.value f.vars name x).symm
    · rfl

/-- What an assignment to a member looks like. -/
theorem store_putSlot {x : Item} {v : Value} (sound : h.Sound) (hx : h.Shows x v) (r : ObjectRef)
    (name : Text) : ((Heap.putSlot r name x).after h).store = h.store.putSlot r name v := by
  have hget (i : ObjectRef) :
      h.store.objects[i]? = (h.objects[i]?).map fun d => (h.dict d).mapValues h.value :=
    Array.getElem?_map
  cases hr : h.objects[r]? with
  | none =>
    rw [after_putSlot_of_none hr]
    refine congrArg (Store.mk h.store.frames · h.store.functions) (Array.ext_getElem? fun i => ?_)
    rw [Array.getElem?_modify]
    split
    case isTrue hi =>
      have hnone : h.store.objects[i]? = none := by rw [← hi, hget, hr, Option.map_none]
      exact hnone.trans (congrArg (Option.map _) hnone).symm
    case isFalse => rfl
  | some d =>
    have hvalue : Heap.value { h with
        dicts := h.dicts.modify d (·.put name x)
        assignments := h.assignments ++ [⟨r, name, x⟩] } = h.value := value_congr rfl rfl
    rw [after_putSlot hr]
    simp only [Heap.store, Store.putSlot, hvalue, Store.mk.injEq, true_and, and_true]
    refine Array.ext_getElem? fun i => ?_
    rw [Array.getElem?_modify, Array.getElem?_map, Array.getElem?_map]
    split
    case isTrue hi =>
      subst hi
      rw [hr, Option.map_some, Option.map_some, Option.map_some,
        dict_modify _ (sound.dict_lt hr), ← hx.value]
      exact congrArg some (Slots.put_map h.value (h.dict d) name x).symm
    case isFalse hi =>
      cases hi' : h.objects[i]? with
      | none => rfl
      | some k =>
        have hne : d ≠ k := fun hdk => hi (sound.distinct r i d hr (hdk ▸ hi'))
        rw [Option.map_some, Option.map_some, dict_modify_of_ne _ hne]

theorem putSlot {x : Item} {v : Value} (hx : h.Shows x v) (r : ObjectRef) (name : Text) :
    Follows true Same h (Heap.putSlot r name x) (modify fun st => st.putSlot r name v) :=
  fun sound => ⟨sound.step_putSlot r name hx.below, store_putSlot sound hx r name, .ok rfl⟩

theorem lookup (scope : Scope) (name : String) :
    Mirrors m Shows h (Heap.lookup scope name) (do return (← get).lookup scope name) := by
  intro sound
  refine ⟨.refl m sound, rfl, .ok ?_⟩
  change h.Shows ((scope.chain.findSome? fun r => (h.frame r).vars.lookup name).getD .undefined)
    ((scope.chain.findSome? fun r => (h.store.frame r).vars.lookup name).getD .undefined)
  induction scope.chain with
  | nil => exact .undefined
  | cons r rs ih =>
    rw [List.findSome?_cons, List.findSome?_cons]
    rcases optionRel_cases ((sound.shows_vars r).lookup name) with ⟨hx, hv⟩ | ⟨x, v, hx, hv, hshows⟩
    · rw [hx, hv]
      exact ih
    · rw [hx, hv]
      exact hshows

end Mirrors
end ChatTemplate.Heap
