import ChatTemplate.Eval.Arguments
import ChatTemplate.Proofs.Heap.Mirrors

/-!
# Arguments in a heap

The arguments of a call are a list and a dictionary that are made for it. A function that is to take
some of them away, or to add to them, makes copies first.
-/

namespace ChatTemplate

/-! ### Names as texts -/

theorem Text.toString?_ofString (s : String) : (Text.ofString s).toString? = some s := by
  have hchar : Codepoint.toChar? ∘ Codepoint.ofChar = fun c => some c :=
    funext Codepoint.toChar?_ofChar
  have hchars : (Text.ofString s).chars? = some s.toList := by
    rw [Text.chars?, Text.toList_ofString, List.mapM_map, hchar]
    exact List.mapM_pure.trans (congrArg some (List.map_id s.toList))
  rw [Text.toString?, hchars, Option.map_some, String.ofList_toList]

namespace Slots
variable {α : Type}

/-- Slots whose names are strings, as a dictionary. -/
def byText (s : Slots String α) : Slots Text α := s.map fun (k, x) => (.ofString k, x)

/-- The slots of a dictionary whose names are strings. -/
def byString (s : Slots Text α) : Slots String α :=
  s.filterMap fun (k, x) => k.toString?.map (·, x)

theorem byString_byText (s : Slots String α) : s.byText.byString = s := by
  induction s with
  | nil => rfl
  | cons e s ih =>
    simp only [byText, byString, List.map_cons, List.filterMap_cons, Text.toString?_ofString,
      Option.map_some]
    exact congrArg (e :: ·) ih

theorem byText_put (s : Slots String α) (name : String) (x : α) :
    (s.put name x).byText = s.byText.put (.ofString name) x := by
  induction s with
  | nil => rfl
  | cons e s ih =>
    obtain ⟨k, y⟩ := e
    by_cases h : k = name
    · simp [byText, put, h]
    · have hne : Text.ofString k ≠ .ofString name := fun heq => h (Text.ofString_injective heq)
      simp only [byText, put, h, if_false, List.map_cons, hne]
      exact congrArg _ ih

theorem byText_remove (s : Slots String α) (name : String) :
    (s.remove name).byText = s.byText.remove (.ofString name) := by
  unfold byText remove
  rw [List.filter_map]
  refine congrArg _ (List.filter_congr fun e _ => ?_)
  by_cases h : e.1 = name
  · simp [h]
  · have hne : Text.ofString e.1 ≠ .ofString name := fun heq => h (Text.ofString_injective heq)
    exact (bne_iff_ne.mpr h).trans (bne_iff_ne.mpr hne).symm

theorem names_remove (s : Slots String α) (name : String) :
    (s.remove name).names = s.names.filter (· != name) := by
  unfold names remove
  rw [List.filter_map]
  rfl

theorem isEmpty_byText (s : Slots String α) : List.isEmpty s.byText = s.names.isEmpty := by
  rw [byText, names, List.isEmpty_map, List.isEmpty_map]

theorem lookup_remove_of_ne (s : Slots String α) {name other : String} (h : other ≠ name) :
    (s.remove name).lookup other = s.lookup other := by
  induction s with
  | nil => rfl
  | cons e s ih =>
    obtain ⟨k, x⟩ := e
    by_cases hk : k = name
    · have hremove : remove name ((k, x) :: s) = remove name s := by simp [remove, hk]
      have hne : other ≠ k := fun heq => h (heq.trans hk)
      rw [hremove, ih, List.lookup_cons, beq_false_of_ne hne]
    · have hremove : remove name ((k, x) :: s) = (k, x) :: remove name s := by simp [remove, hk]
      rw [hremove, List.lookup_cons, List.lookup_cons, ih]

theorem lookup_byText (s : Slots String α) (name : String) :
    s.byText.lookup (.ofString name) = s.lookup name := by
  induction s with
  | nil => rfl
  | cons e s ih =>
    obtain ⟨k, y⟩ := e
    by_cases h : name = k
    · simp [byText, h]
    · have hne : Text.ofString name ≠ .ofString k := fun heq => h (Text.ofString_injective heq)
      simp only [byText, List.map_cons, List.lookup_cons, beq_false_of_ne h, beq_false_of_ne hne]
      exact ih

end Slots

namespace Heap
variable {γ δ : Type} {m : Mark} {w : Bool} {h h' : Heap}

/-- Evaluates expressions and statements in a heap. -/
structure Interpreter where
  expr : Expr → Scope → Run Item
  stmt : Stmt → Scope → Run Flow

/-- An interpreter that does in heaps what the evaluator does in stores. -/
structure Interpreter.Mirrors (run : Interpreter) (ev : Evaluator) : Prop where
  expr : ∀ h e scope, Follows true Shows h (run.expr e scope) (ev.expr e scope)
  stmt : ∀ h s scope, Follows true Same h (run.stmt s scope) (ev.stmt s scope)

/-- The arguments of a call. -/
structure Call where
  positional : ListRef
  keywords : DictRef

/-- The slots of a dictionary by their names, which are strings. -/
def namedOf (d : DictRef) : Run (Slots String Item) := return ((← get).dict d).byString

namespace Call

/-- No arguments. -/
def new : Run Call := do
  let positional ← newList []
  let keywords ← newDict []
  return ⟨positional, keywords⟩

/-- Copies of the positional arguments and of the keywords. -/
def copy (c : Call) : Run Call := do
  let positional ← newList (← listOf c.positional)
  let keywords ← newDict (← dictOf c.keywords)
  return ⟨positional, keywords⟩

/-- What the arguments stand for. -/
def view (c : Call) (h : Heap) : Args :=
  ⟨(h.list c.positional).map h.value, (h.dict c.keywords).byString.mapValues h.value⟩

/-- What copies of the arguments stand for. -/
def seen (c : Call) : Run Args := do
  let own ← c.copy
  return own.view (← get)

def count (c : Call) : Run Nat := do
  let positional ← listOf c.positional
  let keywords ← dictOf c.keywords
  return positional.length + (if keywords.isEmpty then 0 else 1)

def expectCount (c : Call) (method : String) (least most : Nat) : Run Unit := do
  let n ← c.count
  if least ≤ n && n ≤ most then return ()
  else fail (.arity method least most n)

/-- The arguments as plain values: the keywords come last, as an object. -/
def values (c : Call) : Run (List Item) := do
  let positional ← listOf c.positional
  let keywords ← dictOf c.keywords
  if keywords.isEmpty then return positional
  else return positional ++ [← objectOf keywords]

/-- Adds keywords to what is picked. -/
def pickKeywords (method : String) (params : List String) (picked : DictRef) :
    Slots String Item → Run Unit
  | [] => return ()
  | (k, x) :: rest =>
    if params.contains k then do
      put picked k x
      pickKeywords method params picked rest
    else fail (.unexpectedKeyword method k)

/-- The arguments by the names of the parameters they are for. They are picked from copies. -/
def pick (c : Call) (method : String) (params : List String) : Run (Slots String Item) := do
  let own ← c.copy
  let given ← listOf own.positional
  if params.length < given.length then fail (.arity method 0 params.length given.length)
  let picked ← newDict (Slots.byText (params.zip given))
  pickKeywords method params picked (← namedOf own.keywords)
  namedOf picked

end Call

section
variable (run : Interpreter)

/-- Evaluates the arguments of a call from left to right, adding them to its list and dictionary. -/
def addArgs (scope : Scope) (c : Call) : List Arg → Run Unit
  | [] => return ()
  | .positional e :: rest => do
    let x ← run.expr e scope
    append c.positional [x]
    addArgs scope c rest
  | .keyword k e :: rest => do
    let x ← run.expr e scope
    put c.keywords k.text x
    addArgs scope c rest
  | .spread e :: rest => do
    match ← run.expr e scope with
    | .array r =>
      append c.positional (← itemsOf r)
      addArgs scope c rest
    | x => fail (.notUnpackable x.kind)

def args (scope : Scope) (as : List Arg) : Run Call := do
  let c ← Call.new
  addArgs run scope c as
  return c

end

/-! ### What they stand for -/

/-- The list and the dictionary of a call, which are its own, stand for the arguments. -/
structure ShowsCall (h : Heap) (c : Call) (a : Args) : Prop where
  positional : ∃ xs, h.OwnsList c.positional xs ∧ h.ShowsAll xs a.positional
  keywords : ∃ ks : Slots String Item,
    h.OwnsDict c.keywords ks.byText ∧ h.ShowsSlots ks a.keywords

namespace ShowsCall
variable {c : Call} {a : Args}

theorem positional_lt (hc : h.ShowsCall c a) : c.positional < h.lists.size := by
  obtain ⟨xs, own, -⟩ := hc.positional
  exact own.lt_size

theorem keywords_lt (hc : h.ShowsCall c a) : c.keywords < h.dicts.size := by
  obtain ⟨ks, own, -⟩ := hc.keywords
  exact own.lt_size

theorem mono_of_lt (hc : h.ShowsCall c a) (s : h.Step m h') (hl : c.positional < m.lists)
    (hd : c.keywords < m.dicts) : h'.ShowsCall c a := by
  obtain ⟨xs, own, hxs⟩ := hc.positional
  obtain ⟨ks, own', hks⟩ := hc.keywords
  exact ⟨⟨xs, own.mono s hl, hxs.mono s⟩, ⟨ks, own'.mono s hd, hks.mono s⟩⟩

theorem mono (hc : h.ShowsCall c a) (s : h.Step (h.mark w) h') : h'.ShowsCall c a :=
  hc.mono_of_lt s hc.positional_lt hc.keywords_lt

theorem list (hc : h.ShowsCall c a) : h.ShowsAll (h.list c.positional) a.positional := by
  obtain ⟨xs, own, hxs⟩ := hc.positional
  rwa [own.list_eq]

theorem named (hc : h.ShowsCall c a) : h.ShowsSlots (h.dict c.keywords).byString a.keywords := by
  obtain ⟨ks, own, hks⟩ := hc.keywords
  rwa [own.dict_eq, Slots.byString_byText]

theorem slots (hc : h.ShowsCall c a) : h.ShowsSlots (h.dict c.keywords) a.slots := by
  obtain ⟨ks, own, hks⟩ := hc.keywords
  rw [own.dict_eq, ShowsSlots, Slots.Related, Slots.byText, Args.slots, List.forall₂_map_left_iff,
    List.forall₂_map_right_iff]
  exact hks.imp fun _ _ hx => ⟨congrArg Text.ofString hx.1, hx.2⟩

theorem isEmpty_eq (hc : h.ShowsCall c a) : (h.dict c.keywords).isEmpty = a.keywords.isEmpty := by
  rw [hc.slots.isEmpty_eq, Args.slots, List.isEmpty_map]

theorem view_eq (hc : h.ShowsCall c a) : c.view h = a := by
  rw [Call.view, hc.list.map_eq, hc.named.mapValues_eq]

end ShowsCall

namespace Mirrors
variable {c : Call} {a : Args} {S : Heap → γ → δ → Prop} {y : Eval δ}

theorem namedOf_bind {d : DictRef} {f : Slots String Item → Run γ}
    (hf : Mirrors m S h (f (h.dict d).byString) y) : Mirrors m S h (namedOf d >>= f) y :=
  .ask (fun h => (h.dict d).byString) hf

theorem new_bind {f : Call → Run γ} (hle : m.Le (h.mark w))
    (hf : ∀ h' c, h.Step (h.mark w) h' → h'.ShowsCall c Args.none → h.lists.size ≤ c.positional →
      h.dicts.size ≤ c.keywords → Mirrors m S h' (f c) y) : Mirrors m S h (Call.new >>= f) y := by
  unfold Call.new
  simp only [bind_assoc, pure_bind]
  refine newList_bind hle fun h₁ s₁ own₁ => ?_
  refine newDict_bind (hle.trans (s₁.mark_le id)) fun h₂ s₂ own₂ => ?_
  refine hf h₂ _ (s₁.trans (s₂.weaken (s₁.mark_le id))) ⟨?_, ?_⟩ (Nat.le_refl _) s₁.dicts_size
  · exact ⟨[], own₁.mono s₂ own₁.lt_size, .nil⟩
  · exact ⟨[], own₂, .nil⟩

theorem copy_bind (hc : h.ShowsCall c a) {f : Call → Run γ} (hle : m.Le (h.mark w))
    (hf : ∀ h' c', h.Step (h.mark w) h' → h'.ShowsCall c' a → h.lists.size ≤ c'.positional →
      h.dicts.size ≤ c'.keywords → Mirrors m S h' (f c') y) : Mirrors m S h (c.copy >>= f) y := by
  unfold Call.copy
  simp only [bind_assoc, pure_bind]
  refine listOf_bind (newList_bind hle fun h₁ s₁ own₁ => ?_)
  refine dictOf_bind (newDict_bind (hle.trans (s₁.mark_le id)) fun h₂ s₂ own₂ => ?_)
  refine hf h₂ _ (s₁.trans (s₂.weaken (s₁.mark_le id))) ⟨?_, ?_⟩ (Nat.le_refl _) s₁.dicts_size
  · exact ⟨_, own₁.mono s₂ own₁.lt_size, (hc.list.mono s₁).mono s₂⟩
  · obtain ⟨ks, own, hks⟩ := hc.keywords
    have own' := own.mono s₁ own.lt_size
    exact ⟨ks, own'.dict_eq ▸ own₂, (hks.mono s₁).mono s₂⟩

theorem Follows.copy_bind (hc : h.ShowsCall c a) {f : Call → Run γ}
    (hf : ∀ h' c', h.Step (h.mark w) h' → h'.ShowsCall c' a → Follows w S h' (f c') y) :
    Follows w S h (c.copy >>= f) y :=
  Mirrors.copy_bind hc (.refl _) fun h' c' s hc' _ _ => (hf h' c' s hc').weaken (s.mark_le id)

/-- An operation that makes something new of what copies of the arguments stand for. -/
theorem made_seen (hc : h.ShowsCall c a) {q : Args → Eval Value} (hq : (q a).Respects Eq) :
    Follows w Shows h (c.seen >>= fun a => Heap.made (q a)) (q a) := by
  unfold Call.seen
  rw [bind_assoc]
  refine Follows.copy_bind hc fun h' c' s hc' => .ask c'.view ?_
  rw [hc'.view_eq]
  exact made hq

theorem count_bind (hc : h.ShowsCall c a) {f : Nat → Run γ} (hf : Mirrors m S h (f a.count) y) :
    Mirrors m S h (c.count >>= f) y := by
  unfold Call.count
  simp only [bind_assoc, pure_bind]
  refine listOf_bind (dictOf_bind ?_)
  rw [hc.list.length_eq, hc.isEmpty_eq]
  exact hf

theorem expectCount (hc : h.ShowsCall c a) (method : String) (least most : Nat) :
    Mirrors m Same h (c.expectCount method least most) (a.expectCount method least most) := by
  refine count_bind hc ?_
  unfold Args.expectCount
  split
  · exact .pure rfl
  · exact .fail _

theorem values (hc : h.ShowsCall c a) : Follows w ShowsAll h c.values a.values := by
  unfold Call.values Args.values
  refine listOf_bind (dictOf_bind ?_)
  rw [hc.isEmpty_eq]
  split
  · exact .pure hc.list
  · refine (objectOf hc.slots).bind fun h' x v s hx => ?_
    exact .pure (List.rel_append (hc.list.mono s) (.cons hx .nil))

/-- The first keyword that is for no parameter is what picking fails at. -/
theorem pickKeywords_bind (method : String) (params : List String) {picked : DictRef}
    {t : Slots String Item} {t' : Slots String Value} {kws : Slots String Item}
    {kws' : Slots String Value} (own : h.OwnsDict picked t.byText) (ht : h.ShowsSlots t t')
    (hkws : h.ShowsSlots kws kws') (hle : m.Le ⟨h.lists.size, picked, false⟩) :
    Mirrors m ShowsSlots h
      (Call.pickKeywords method params picked kws >>= fun _ => namedOf picked)
      (match kws'.find? fun (k, _) => !params.contains k with
        | some (k, _) => Eval.fail (.unexpectedKeyword method k)
        | _ => return t'.putAll kws') := by
  induction kws generalizing h t t' kws' with
  | nil =>
    cases hkws
    rw [Call.pickKeywords, pure_bind, ← bind_pure (namedOf picked)]
    refine namedOf_bind ?_
    rw [own.dict_eq, Slots.byString_byText]
    exact .pure ht
  | cons e kws ih =>
    obtain ⟨k, x⟩ := e
    obtain ⟨⟨k', v⟩, kws', ⟨hname, hx⟩, hrest, rfl⟩ := List.forall₂_cons_left_iff.mp hkws
    obtain rfl : k = k' := hname
    rw [Call.pickKeywords]
    cases hk : params.contains k with
    | false =>
      simp only [List.find?_cons, hk, Bool.not_false]
      exact .failed_bind _
    | true =>
      simp only [List.find?_cons, hk, Bool.not_true, if_true, bind_assoc]
      refine put_bind own hle fun h' s own' => ?_
      rw [← Slots.byText_put] at own'
      exact ih own' ((ht.mono s).put k (hx.mono s)) (ShowsSlots.mono hrest s)
        ⟨Nat.le_trans hle.lists s.lists_size, hle.dicts, hle.assigns⟩

theorem pick (hc : h.ShowsCall c a) (method : String) (params : List String) :
    Follows w ShowsSlots h (c.pick method params) (a.pick method params) := by
  unfold Call.pick Args.pick
  refine copy_bind (w := w) hc (.refl _) fun h₁ c₁ s₁ hc₁ _ hd => ?_
  refine listOf_bind ?_
  rw [hc₁.list.length_eq]
  dsimp only
  split
  · exact .fail_bind _
  · refine newDict_bind (w := false) ⟨s₁.lists_size, s₁.dicts_size, nofun⟩ fun h₂ s₂ own => ?_
    refine namedOf_bind ?_
    have hc₂ := hc₁.mono s₂
    refine pickKeywords_bind method params own ?_ hc₂.named ⟨?_, ?_, nofun⟩
    · exact ShowsSlots.mono (forall₂_zip params hc₁.list) s₂
    · exact Nat.le_trans s₁.lists_size s₂.lists_size
    · exact s₁.dicts_size

/-! ### Evaluating arguments -/

variable {run : Interpreter} {ev : Evaluator}

theorem addArgs (hrun : run.Mirrors ev) (scope : Scope) (as : List Arg) (hc : h.ShowsCall c a)
    (hle : m.Le ⟨c.positional, c.keywords, true⟩) :
    Mirrors m (fun h' _ a' => h'.ShowsCall c a') h (Heap.addArgs run scope c as)
      (Eval.args ev scope as a) := by
  induction as generalizing h a with
  | nil => exact .pure hc
  | cons arg as ih =>
    have hmark : m.Le (h.mark true) :=
      ⟨Nat.le_trans hle.lists (Nat.le_of_lt hc.positional_lt),
        Nat.le_trans hle.dicts (Nat.le_of_lt hc.keywords_lt), hle.assigns⟩
    cases arg with
    | positional e =>
      refine Mirrors.bind (hrun.expr h e scope) hmark fun h₁ x v s₁ hx => ?_
      have hc₁ := hc.mono s₁
      obtain ⟨xs, own, hxs⟩ := hc₁.positional
      obtain ⟨ks, own', hks⟩ := hc₁.keywords
      refine append_bind own ⟨hle.lists, ?_, nofun⟩ fun h₂ s₂ own₂ => ?_
      · exact Nat.le_trans hle.dicts (Nat.le_of_lt own'.lt_size)
      refine ih ⟨⟨_, own₂, ?_⟩, ⟨ks, own'.mono s₂ own'.lt_size, hks.mono s₂⟩⟩
      exact List.rel_append (hxs.mono s₂) (.cons (hx.mono s₂) .nil)
    | keyword k e =>
      refine Mirrors.bind (hrun.expr h e scope) hmark fun h₁ x v s₁ hx => ?_
      have hc₁ := hc.mono s₁
      obtain ⟨xs, own, hxs⟩ := hc₁.positional
      obtain ⟨ks, own', hks⟩ := hc₁.keywords
      refine put_bind own' ⟨?_, hle.dicts, nofun⟩ fun h₂ s₂ own₂ => ?_
      · exact Nat.le_trans hle.lists (Nat.le_of_lt own.lt_size)
      rw [← Slots.byText_put] at own₂
      exact ih ⟨⟨xs, own.mono s₂ own.lt_size, hxs.mono s₂⟩,
        ⟨_, own₂, (hks.mono s₂).put k.text (hx.mono s₂)⟩⟩
    | spread e =>
      refine Mirrors.bind (hrun.expr h e scope) hmark fun h₁ x v s₁ hx => ?_
      cases s₁.sound'.shown hx with
      | @array r vs hvs =>
        have hc₁ := hc.mono s₁
        obtain ⟨xs, own, hxs⟩ := hc₁.positional
        obtain ⟨ks, own', hks⟩ := hc₁.keywords
        refine itemsOf_bind (append_bind own ⟨hle.lists, ?_, nofun⟩ fun h₂ s₂ own₂ => ?_)
        · exact Nat.le_trans hle.dicts (Nat.le_of_lt own'.lt_size)
        exact ih ⟨⟨_, own₂, List.rel_append (hxs.mono s₂) (hvs.mono s₂)⟩,
          ⟨ks, own'.mono s₂ own'.lt_size, hks.mono s₂⟩⟩
      | _ => exact .fail _

theorem args (hrun : run.Mirrors ev) (scope : Scope) (as : List Arg) :
    Follows true ShowsCall h (Heap.args run scope as) (Eval.args ev scope as Args.none) := by
  unfold Heap.args
  refine new_bind (w := true) (.refl _) fun h₁ c s₁ hc hl hd => ?_
  rw [← bind_pure (Eval.args ev scope as Args.none)]
  refine (addArgs hrun scope as hc (.refl _)).bind ⟨hl, hd, id⟩ fun _ _ _ _ hc => .pure hc

end Mirrors
end Heap
end ChatTemplate
