import ChatTemplate.Proofs.Eval.Steps
import ChatTemplate.Proofs.Heap.Operations
import ChatTemplate.Proofs.Sorting.Renaming

/-!
# Filters in a heap

A filter answers its operand, one of the items that it is given or finds, or an array of a list that
it made. Lists are sorted, reversed and added to in place, which is never the list of the operand;
`map` takes its keywords out of a copy.
-/

namespace ChatTemplate.Heap
variable {γ δ : Type} {w : Bool} {m : Mark} {h : Heap}

/-! ### Collecting -/

/-- Adds to a list, in their order, the items that are asked for. -/
def collect (l : ListRef) (asked : Item → Run Bool) : List Item → Run Unit
  | [] => return ()
  | x :: xs => do
    if ← asked x then append l [x]
    collect l asked xs

/-- Adds to a list the items that equal none of those in it. -/
def unique (l : ListRef) : List Item → Run Unit
  | [] => return ()
  | x :: xs => do
    let seen ← valuesOf (← listOf l)
    let v ← valueOf x
    if ← look (Eval.finite (·.holds? seen v)) then unique l xs
    else
      append l [x]
      unique l xs

namespace Mirrors
variable {β : Type} {R : Heap → Item → β → Prop} {l : ListRef} {asked : Item → Run Bool}
  {p : β → Eval Bool} {xs : List Item} {bs : List β}

theorem collectAux (hR : Stable R) (hle : m.Le ⟨l, h.dicts.size, w⟩)
    (hp : ∀ h' x b, h.Step m h' → R h' x b → Follows w Same h' (asked x) (p b)) {kept : List Item}
    (own : h.OwnsList l kept) {kept' : List β} (hkept : List.Forall₂ (R h) kept kept'.reverse)
    (hxs : List.Forall₂ (R h) xs bs) :
    Mirrors m
      (fun h' _ kept' => ∃ kept, h'.OwnsList l kept ∧ List.Forall₂ (R h') kept kept'.reverse) h
      (Heap.collect l asked xs) (bs.filterAuxM p kept') := by
  induction xs generalizing h bs kept kept' with
  | nil =>
    cases hxs
    exact .pure ⟨kept, own, hkept⟩
  | cons x xs ih =>
    obtain ⟨b, bs, hx, hrest, rfl⟩ := List.forall₂_cons_left_iff.mp hxs
    have hmark := hle.to_mark own.lt_size
    refine .of_sound fun sound => ?_
    refine Mirrors.bind (hp h x b (.refl m sound) hx) hmark ?_
    rintro h₁ c _ s₁ rfl
    have hle₁ := hle.later s₁
    have own₁ := own.mono s₁ own.lt_size
    have hkept₁ := hkept.imp fun _ _ => hR s₁
    cases c with
    | false =>
      refine ih hle₁ (fun h' x b s => ?_) own₁ hkept₁ (hrest.imp fun _ _ => hR s₁)
      exact hp h' x b ((s₁.weaken hmark).trans s)
    | true =>
      refine append_bind own₁ hle₁.quiet fun h₂ s₂ own₂ => ?_
      have s := (s₁.weaken hmark).trans (s₂.weaken hle₁.quiet)
      have hkept₂ : List.Forall₂ (R h₂) (kept ++ [x]) (b :: kept').reverse := by
        rw [List.reverse_cons]
        exact List.rel_append (hkept₁.imp fun _ _ => hR s₂) (.cons (hR s hx) .nil)
      refine ih (hle₁.later s₂) (fun h' x b s' => ?_) own₂ hkept₂ (hrest.imp fun _ _ => hR s)
      exact hp h' x b (s.trans s')

theorem collect_bind (hR : Stable R) (hle : m.Le ⟨l, h.dicts.size, w⟩)
    (hp : ∀ h' x b, h.Step m h' → R h' x b → Follows w Same h' (asked x) (p b))
    (own : h.OwnsList l []) (hxs : List.Forall₂ (R h) xs bs) {S : Heap → γ → δ → Prop}
    {f : Unit → Run γ} {g : List β → Eval δ}
    (hf : ∀ h' kept kept', h.Step m h' → h'.OwnsList l kept → List.Forall₂ (R h') kept kept' →
      Mirrors m S h' (f ()) (g kept')) :
    Mirrors m S h (Heap.collect l asked xs >>= f) (bs.filterM p >>= g) := by
  unfold List.filterM
  rw [bind_assoc]
  refine Mirrors.bind (collectAux hR hle hp own .nil hxs) (.refl m) fun h' _ kept' s hkept => ?_
  obtain ⟨kept, own', hkept⟩ := hkept
  rw [pure_bind]
  exact hf h' kept kept'.reverse s own' hkept

theorem unique (hle : m.Le ⟨l, h.dicts.size, false⟩) {vs kept' : List Value} {kept : List Item}
    (own : h.OwnsList l kept) (hkept : h.ShowsAll kept kept') (hxs : h.ShowsAll xs vs) :
    Mirrors m (fun h' _ kept' => ∃ kept, h'.OwnsList l kept ∧ h'.ShowsAll kept kept') h
      (Heap.unique l xs) (Eval.unique kept' vs) := by
  induction xs generalizing h vs kept kept' with
  | nil =>
    cases hxs
    exact .pure ⟨kept, own, hkept⟩
  | cons x xs ih =>
    obtain ⟨v, vs, hx, hrest, rfl⟩ := List.forall₂_cons_left_iff.mp hxs
    unfold Heap.unique Eval.unique
    refine listOf_bind (valuesOf_bind (own.list_eq ▸ hkept) (valueOf_bind hx ?_))
    have hlook : Follows false Same h (Heap.look (Eval.finite (·.holds? kept' v)))
        (Eval.finite (·.holds? kept' v)) := look (.finite _)
    refine Mirrors.bind hlook (hle.to_mark own.lt_size) ?_
    rintro h₁ c _ s₁ rfl
    have hle₁ := hle.later s₁
    have own₁ := own.mono s₁ own.lt_size
    cases c with
    | true => exact ih hle₁ own₁ (hkept.mono s₁) (ShowsAll.mono hrest s₁)
    | false =>
      refine append_bind own₁ hle₁ fun h₂ s₂ own₂ => ?_
      refine ih (hle₁.later s₂) own₂ ?_ ((ShowsAll.mono hrest s₁).mono s₂)
      exact List.rel_append ((hkept.mono s₁).mono s₂) (.cons ((hx.mono s₁).mono s₂) .nil)

end Mirrors

/-! ### Any operand -/

def toJsonFilter (x : Item) (c : Call) : Run Item := do
  let v ← valueOf x
  made (Eval.toJsonFilter v (← c.seen))

def joinFilter (x : Item) (c : Call) : Run Item := do
  let v ← valueOf x
  made (Eval.joinFilter v (← c.seen))

def intFilter (x : Item) (c : Call) : Run Item := do
  let picked ← c.pick "int" ["default"]
  let fallback := (picked.lookup "default").getD (.int 0)
  match x with
  | .int i => return .int i
  | .float f =>
    match Double.ofFloat f with
    | .finite s m e => return .int (Double.floor s m e)
    | .infinite _ => escape (@Escape.overflow .infinite)
    | .nan => escape (@Escape.badValue .notANumber)
  | .bool b => return .int (if b then 1 else 0)
  | .string s => return ((Eval.readInteger? s).map .int).getD fallback
  | _ => return fallback

def floatFilter (x : Item) (c : Call) : Run Item := do
  let picked ← c.pick "float" ["default"]
  let fallback := (picked.lookup "default").getD (.float 0)
  match x with
  | .int i =>
    match Double.ofInt? i with
    | some f => return .float f
    | none => escape (@Escape.overflow (.toDouble i))
  | .float f => return .float f
  | .bool b => return .float (if b then 1 else 0)
  | .string s => return ((Number.readFloat? s.toList).map .float).getD fallback
  | _ => return fallback

def defaultFilter (x : Item) (c : Call) : Run Item := do
  let picked ← c.pick "default" ["default_value", "boolean"]
  let fallback := (picked.lookup "default_value").getD (.string "")
  match x with
  | .undefined | .null => return fallback
  | x =>
    let falsy ← truthy ((picked.lookup "boolean").getD (.bool false))
    if falsy && !(← truthy x) then return fallback else return x

namespace Mirrors
variable {x : Item} {v : Value} {c : Call} {a : Args}

theorem toJsonFilter (hx : h.Shows x v) (hc : h.ShowsCall c a) :
    Follows w Shows h (Heap.toJsonFilter x c) (Eval.toJsonFilter v a) :=
  valueOf_bind hx (made_seen hc (Eval.Looks.toJsonFilter v a))

theorem joinFilter (hx : h.Shows x v) (hc : h.ShowsCall c a) :
    Follows w Shows h (Heap.joinFilter x c) (Eval.joinFilter v a) :=
  valueOf_bind hx (made_seen hc (Eval.Looks.joinFilter v a))

theorem intFilter (hx : h.Shows x v) (hc : h.ShowsCall c a) :
    Follows w Shows h (Heap.intFilter x c) (Eval.intFilter v a) := by
  refine (pick hc _ _).bind fun h₁ picked picked' s hpicked => .of_sound fun sound => ?_
  have hfallback := Shows.getD (hpicked.lookup "default") (.int 0)
  cases sound.shown (hx.mono s) with
  | int i => exact .pure (.int i)
  | float f =>
    dsimp only
    cases Double.ofFloat f with
    | finite s m e => exact .pure (.int _)
    | infinite s => exact .throw _
    | nan => exact .throw _
  | bool b => exact .pure (.int _)
  | string s =>
    dsimp only
    cases Eval.readInteger? s with
    | none => exact .pure hfallback
    | some i => exact .pure (.int i)
  | _ => exact .pure hfallback

theorem floatFilter (hx : h.Shows x v) (hc : h.ShowsCall c a) :
    Follows w Shows h (Heap.floatFilter x c) (Eval.floatFilter v a) := by
  refine (pick hc _ _).bind fun h₁ picked picked' s hpicked => .of_sound fun sound => ?_
  have hfallback := Shows.getD (hpicked.lookup "default") (.float 0)
  cases sound.shown (hx.mono s) with
  | int i =>
    dsimp only
    cases Double.ofInt? i with
    | none => exact .throw _
    | some f => exact .pure (.float f)
  | float f => exact .pure (.float f)
  | bool b => exact .pure (.float _)
  | string s =>
    dsimp only
    cases Number.readFloat? s.toList with
    | none => exact .pure hfallback
    | some f => exact .pure (.float f)
  | _ => exact .pure hfallback

theorem defaultFilter (hx : h.Shows x v) (hc : h.ShowsCall c a) :
    Follows w Shows h (Heap.defaultFilter x c) (Eval.defaultFilter v a) := by
  refine (pick hc _ _).bind fun h₁ picked picked' s hpicked => .of_sound fun sound => ?_
  have hx₁ := hx.mono s
  have hfallback := Shows.getD (hpicked.lookup "default_value") (.string "")
  have hflag := Shows.getD (hpicked.lookup "boolean") (.bool false)
  have hchoice : Follows w Shows h₁
      (do
        let falsy ← Heap.truthy ((picked.lookup "boolean").getD (.bool false))
        if falsy && !(← Heap.truthy x) then
          return (picked.lookup "default_value").getD (.string "")
        else return x)
      (do
        let falsy ← Eval.truthy ((picked'.lookup "boolean").getD (.bool false))
        if falsy && !(← Eval.truthy v) then
          return (picked'.lookup "default_value").getD (.string "")
        else return v) := by
    refine Follows.bind (truthy hflag) ?_
    rintro h₂ falsy _ s₂ rfl
    refine Follows.bind (truthy (hx₁.mono s₂)) ?_
    rintro h₃ b _ s₃ rfl
    split
    · exact .pure ((hfallback.mono s₂).mono s₃)
    · exact .pure ((hx₁.mono s₂).mono s₃)
  cases sound.shown hx₁ with
  | undefined => exact .pure hfallback
  | null => exact .pure hfallback
  | _ => exact hchoice

end Mirrors

/-! ### Arrays -/

/-- Sorts a list that is made for it, and turns that around where `reverse` says so. -/
def sortFilter (r : ArrayRef) (c : Call) : Run Item := do
  let picked ← c.pick "sort" ["reverse"]
  let xs ← itemsOf r
  let value := (← get).value
  match Sorting.sort (fun x y => Eval.less (value x) (value y)) xs with
  | .error cause => fail cause
  | .ok sorted =>
    let l ← newList sorted
    if ← truthy ((picked.lookup "reverse").getD (.bool false)) then reverse l
    newArray l

def uniqueFilter (r : ArrayRef) : Run Item := do
  let l ← newList []
  unique l (← itemsOf r)
  newArray l

def runTest (host : Host) (name : String) (test : Test) (x : Item) (args : List Item) :
    Run Bool := do
  let v ← valueOf x
  look (Eval.runTest host name test v (← valuesOf args))

/-- What an object has under a name. -/
def attributeOf (attr : Text) (x : Item) : Run Item := do
  match x with
  | .object r => return ((← slotsOf r).lookup attr).getD .undefined
  | _ => return .undefined

/-- A new array of the items that are asked for. -/
def select (asked : Item → Run Bool) (xs : List Item) : Run Item := do
  let l ← newList []
  collect l asked xs
  newArray l

/-- The objects whose attribute passes, or fails where `keep` is false. -/
def selectByAttribute (host : Host) (scope : Scope) (filter : String) (keep : Bool) (r : ArrayRef)
    (c : Call) : Run Item := do
  let xs ← itemsOf r
  match Eval.objectRefs? (← valuesOf xs) with
  | none => fail (.attributeOperand filter)
  | some _ =>
    match Eval.attributeNames? (c.view (← get)) with
    | none => fail (.attributeNames filter)
    | some (attr, testName) =>
      match testName with
      | none => select (fun x => return (← truthy (← attributeOf attr x)) == keep) xs
      | some name =>
        let (known, test) ← look (Eval.findTest scope name)
        let rest ← newList ((← listOf c.positional).drop 2)
        let args ← Call.values ⟨rest, c.keywords⟩
        select (fun x => return (← runTest host known test (← attributeOf attr x) args) == keep) xs

namespace Mirrors
variable {x : Item} {v : Value} {c : Call} {a : Args} {r : ArrayRef} {vs : List Value}

theorem sortFilter (hr : h.Shows (.array r) (.array vs)) (hc : h.ShowsCall c a) :
    Follows w Shows h (Heap.sortFilter r c) (Eval.sortFilter vs a) := by
  unfold Heap.sortFilter Eval.sortFilter
  refine (pick hc _ _).bind fun h₁ picked picked' s₁ hpicked => .of_sound fun sound => ?_
  have hvs := sound.shows_items_of_array (hr.mono s₁)
  have hflag := Shows.getD (hpicked.lookup "reverse") (.bool false)
  refine itemsOf_bind (get_bind ?_)
  have hless (x x' : Item) (v v' : Value) (hx : h₁.Shows x v) (hx' : h₁.Shows x' v') :
      Eval.less (h₁.value x) (h₁.value x') = Eval.less v v' := by rw [hx.value, hx'.value]
  dsimp only
  rcases Sorting.sort_forall₂ _ hless hvs with ⟨e, hx, hy⟩ | ⟨sorted, sorted', hx, hy, hsorted⟩
  · rw [hx, hy]
    exact .fail _
  rw [hx, hy]
  refine newList_bind (w := w) (.refl _) fun h₂ s₂ own₂ => ?_
  have hsorted₂ := ShowsAll.mono hsorted s₂
  have htruthy : Follows w Same h₂ (Heap.truthy ((picked.lookup "reverse").getD (.bool false)))
      (Eval.truthy ((picked'.lookup "reverse").getD (.bool false))) := truthy (hflag.mono s₂)
  refine Mirrors.bind htruthy (s₂.mark_le id) ?_
  rintro h₃ reversed _ s₃ rfl
  have own₃ := own₂.mono s₃ own₂.lt_size
  have hsorted₃ := hsorted₂.mono s₃
  cases reversed with
  | false => exact newArray own₃.lt_size (own₃.list_eq ▸ hsorted₃) (Nat.le_refl _)
  | true =>
    refine reverse_bind own₃ ⟨Nat.le_refl _, ?_, nofun⟩ fun h₄ s₄ own₄ => ?_
    · exact Nat.le_trans s₂.dicts_size s₃.dicts_size
    · exact newArray own₄.lt_size (own₄.list_eq ▸ List.rel_reverse (hsorted₃.mono s₄))
        (Nat.le_refl _)

theorem uniqueFilter (hr : h.Shows (.array r) (.array vs)) :
    Follows w Shows h (Heap.uniqueFilter r) (do return .array (← Eval.unique [] vs)) := by
  refine newList_bind (w := false) ⟨Nat.le_refl _, Nat.le_refl _, nofun⟩ fun h₁ s₁ own₁ => ?_
  refine .of_sound fun sound => itemsOf_bind ?_
  have hvs := sound.shows_items_of_array (hr.mono s₁)
  have hle : (h.mark w).Le ⟨h.lists.size, h₁.dicts.size, false⟩ :=
    ⟨Nat.le_refl _, s₁.dicts_size, nofun⟩
  refine Mirrors.bind (unique hle own₁ .nil hvs) (.refl _) fun h₂ _ kept' s₂ hkept => ?_
  obtain ⟨kept, own₂, hkept⟩ := hkept
  exact newArray own₂.lt_size (own₂.list_eq ▸ hkept) (Nat.le_refl _)

theorem runTest (host : Host) (name : String) (test : Test) (hx : h.Shows x v) {xs : List Item}
    {vs : List Value} (hxs : h.ShowsAll xs vs) :
    Mirrors m Same h (Heap.runTest host name test x xs) (Eval.runTest host name test v vs) :=
  valueOf_bind hx (valuesOf_bind hxs (look (Eval.Looks.runTest host name test v vs)))

theorem attributeOf (attr : Text) (r : ObjectRef) :
    Mirrors m Shows h (Heap.attributeOf attr (.object r))
      (do return ((← Eval.slotsOf r).lookup attr).getD .undefined) :=
  slotsOf_bind r fun hs => .pure (.getD (hs.lookup attr) .undefined)

/-- The items of an array of objects. -/
theorem items_of_objectRefs? {xs : List Item} {refs : List ObjectRef} (hxs : h.ShowsAll xs vs)
    (hrefs : Eval.objectRefs? vs = some refs) :
    List.Forall₂ (fun x r => x = .object r) xs refs := by
  induction hxs generalizing refs with
  | nil =>
    cases hrefs
    exact .nil
  | @cons x v xs vs hx _ ih =>
    cases v with
    | object r =>
      obtain ⟨rest, hrest, rfl⟩ := Option.map_eq_some_iff.mp hrefs
      exact .cons hx.eq_object (ih hrest)
    | _ => cases hrefs

theorem select {asked : Item → Run Bool} {p : ObjectRef → Eval Bool} {xs : List Item}
    {refs : List ObjectRef} (hxs : List.Forall₂ (fun x r => x = .object r) xs refs)
    (hp : ∀ h' r, h.Step (h.mark w) h' → Follows w Same h' (asked (.object r)) (p r)) :
    Follows w Shows h (Heap.select asked xs)
      (do return .array ((← refs.filterM p).map .object)) := by
  refine newList_bind (w := w) (.refl _) fun h₁ s₁ own₁ => ?_
  have hle : (h.mark w).Le ⟨h.lists.size, h₁.dicts.size, w⟩ := ⟨Nat.le_refl _, s₁.dicts_size, id⟩
  refine collect_bind (R := fun _ x r => x = .object r) (fun _ _ _ _ _ _ => id) hle ?_ own₁ hxs ?_
  · rintro h' _ r s rfl
    exact hp h' r (s₁.trans s)
  · intro h₂ kept refs s₂ own₂ hkept
    refine newArray own₂.lt_size (own₂.list_eq ▸ ?_) (Nat.le_refl _)
    rw [ShowsAll, List.forall₂_map_right_iff]
    exact hkept.imp fun x r hx => hx ▸ .object r

theorem selectByAttribute (host : Host) (scope : Scope) (filter : String) (keep : Bool)
    (hr : h.Shows (.array r) (.array vs)) (hc : h.ShowsCall c a) :
    Follows w Shows h (Heap.selectByAttribute host scope filter keep r c)
      (Eval.selectByAttribute host scope filter keep vs a) := by
  refine .of_sound fun sound => ?_
  unfold Heap.selectByAttribute Eval.selectByAttribute
  have hvs := sound.shows_items_of_array hr
  refine itemsOf_bind (valuesOf_bind hvs ?_)
  cases hrefs : Eval.objectRefs? vs with
  | none => exact .fail _
  | some refs =>
    have hxs := items_of_objectRefs? hvs hrefs
    refine get_bind ?_
    rw [hc.view_eq]
    cases hnames : Eval.attributeNames? a with
    | none => exact .fail _
    | some names =>
      obtain ⟨attr, testName⟩ := names
      cases testName with
      | none =>
        refine select hxs fun h' r _ => ?_
        refine Follows.bind (attributeOf attr r) fun h₁ y u s₁ hy => ?_
        refine Follows.bind (truthy hy) ?_
        rintro _ b _ _ rfl
        exact .pure rfl
      | some name =>
        refine Follows.bind (look (.findTest scope name)) ?_
        rintro h₁ ⟨known, test⟩ _ s₁ rfl
        have hc₁ := hc.mono s₁
        refine listOf_bind (newList_bind (w := w) (.refl _) fun h₂ s₂ own₂ => ?_)
        have hrest : h₂.ShowsCall ⟨h₁.lists.size, c.keywords⟩
            { a with positional := a.positional.drop 2 } :=
          ⟨⟨_, own₂, List.forall₂_drop 2 (hc₁.list.mono s₂)⟩, (hc₁.mono s₂).keywords⟩
        refine Mirrors.bind (values hrest) (s₂.mark_le id) fun h₃ args args' s₃ hargs => ?_
        have s := s₂.trans (s₃.weaken (s₂.mark_le id))
        refine (select hxs fun h' r s' => ?_).weaken (s.mark_le id)
        refine Follows.bind (attributeOf attr r) fun h₄ y u s₄ hy => ?_
        refine Follows.bind (runTest host known test hy ((hargs.mono s').mono s₄)) ?_
        rintro _ b _ _ rfl
        exact .pure rfl

end Mirrors

/-! ### `map` -/

/-- The attribute of each item, or `fallback` where an item does not have it. -/
def mapAttribute (attr fallback : Item) (r : ArrayRef) : Run Item := do
  match attr with
  | .string name =>
    let xs ← (← itemsOf r).mapM fun
      | .object r => return ((← slotsOf r).lookup name).getD fallback
      | x => fail (.mapItem x.kind)
    arrayOf xs
  | _ => fail .mapAttribute

/-- `map`, given what applies a filter. Its keywords are taken out of a copy, but those that are
there go on to the filter that it applies. -/
def mapFilter (apply : Text → Call → Item → Run Item) (r : ArrayRef) (c : Call) : Run Item := do
  let own ← c.copy
  let attr? ← pop own.keywords "attribute"
  let fallback ← pop own.keywords "default"
  let positional ← listOf own.positional
  match attr? with
  | some attr =>
    let others ← dictOf own.keywords
    if !positional.isEmpty || !others.isEmpty then fail .mapExtraArguments
    mapAttribute attr (fallback.getD .undefined) r
  | none =>
    match positional with
    | .string inner :: _ =>
      let xs ← (← itemsOf r).mapM fun x => do
        let rest ← newList ((← listOf c.positional).drop 1)
        apply inner ⟨rest, c.keywords⟩ x
      arrayOf xs
    | _ => fail .mapNeedsName

namespace Mirrors
variable {x : Item} {v : Value} {c : Call} {r : ArrayRef} {vs : List Value}

theorem mapAttribute {attr fallback : Item} {attr' fallback' : Value}
    (hfallback : h.Shows fallback fallback') (hr : h.Shows (.array r) (.array vs)) :
    h.Shows attr attr' → Follows w Shows h (Heap.mapAttribute attr fallback r)
      (match attr' with
        | .string name => do
          return .array (← vs.mapM fun
            | .object r => return ((← Eval.slotsOf r).lookup name).getD fallback'
            | v => Eval.fail (.mapItem v.kind))
        | _ => Eval.fail .mapAttribute) := by
  refine fun hattr => .of_sound fun sound => ?_
  unfold Heap.mapAttribute
  cases sound.shown hattr with
  | string name =>
    refine itemsOf_bind (Follows.bind ?_ fun h' xs vs s hxs => arrayOf hxs)
    refine .mapM stable_shows stable_shows (fun h' x v s hx => .of_sound fun sound => ?_)
      (sound.shows_items_of_array hr)
    cases sound.shown hx with
    | object r => exact slotsOf_bind r fun hs => .pure (.getD (hs.lookup name) (hfallback.mono s))
    | _ => exact .fail _
  | _ => exact .fail _

theorem mapFilter {apply : Text → Call → Item → Run Item}
    {apply' : Text → List Value → Value → Eval Value}
    {positional : List Value} {keywords : Slots String Value}
    (hr : h.Shows (.array r) (.array vs)) (hc : h.ShowsCall c ⟨positional, keywords⟩)
    (happly : ∀ inner rest, positional = .string inner :: rest → ∀ h' c' x v,
      h'.ShowsCall c' ⟨rest, keywords⟩ → h'.Shows x v →
      Follows w Shows h' (apply inner c' x) (apply' inner rest v)) :
    Follows w Shows h (Heap.mapFilter apply r c)
      (match keywords.lookup "attribute" with
        | some attr => Eval.mapAttribute attr vs ⟨positional, keywords⟩
        | none =>
          match positional with
          | .string inner :: rest => do return .array (← vs.mapM (apply' inner rest))
          | _ => Eval.fail .mapNeedsName) := by
  unfold Heap.mapFilter
  refine copy_bind (w := w) hc (.refl _) fun h₁ c₁ s₁ hc₁ _ hd => ?_
  obtain ⟨ks, own₁, hks⟩ := hc₁.keywords
  obtain ⟨xs, ownList, hxs⟩ := hc₁.positional
  refine pop_bind own₁ ⟨s₁.lists_size, hd, nofun⟩ fun h₂ s₂ own₂ => ?_
  rw [← Slots.byText_remove] at own₂
  have hle₂ : (h.mark w).Le ⟨h₂.lists.size, c₁.keywords, false⟩ :=
    ⟨Nat.le_trans s₁.lists_size s₂.lists_size, hd, nofun⟩
  refine pop_bind own₂ hle₂ fun h₃ s₃ own₃ => ?_
  rw [← Slots.byText_remove] at own₃
  rw [Slots.lookup_byText, Slots.lookup_byText, Slots.lookup_remove_of_ne _ (by decide)]
  have ownList₂ := ownList.mono s₂ ownList.lt_size
  refine listOf_bind ?_
  rw [(ownList₂.mono s₃ ownList₂.lt_size).list_eq]
  have s : h.Step (h.mark w) h₃ :=
    s₁.trans ((s₂.weaken ⟨s₁.lists_size, hd, nofun⟩).trans (s₃.weaken hle₂))
  have hks₃ := (hks.mono s₂).mono s₃
  have hxs₃ := (hxs.mono s₂).mono s₃
  rcases optionRel_cases (hks₃.lookup "attribute") with ⟨hx, hv⟩ | ⟨attr, attr', hx, hv, hattr⟩
  · rw [hx, hv]
    refine .of_sound fun sound => ?_
    cases hxs₃ with
    | nil => exact .fail _
    | @cons _ _ _ rest hinner hrest =>
      cases sound.shown hinner with
      | string inner =>
        have hitems := sound.shows_items_of_array (hr.mono s)
        have hmap : Follows w ShowsAll h₃ ((h₃.items r).mapM fun x => do
            let rest ← newList ((← listOf c.positional).drop 1)
            apply inner ⟨rest, c.keywords⟩ x) (vs.mapM (apply' inner rest)) := by
          refine .mapM stable_shows stable_shows (fun h' x v s' hx => ?_) hitems
          have hc' := (hc.mono s).mono s'
          refine listOf_bind (newList_bind (w := w) (.refl _) fun h'' s'' own => ?_)
          have hrest : h''.ShowsCall ⟨h'.lists.size, c.keywords⟩ ⟨rest, keywords⟩ :=
            ⟨⟨_, own, List.forall₂_drop 1 (hc'.list.mono s'')⟩, (hc'.mono s'').keywords⟩
          exact (happly inner rest rfl h'' _ x v hrest (hx.mono s'')).weaken (s''.mark_le id)
        refine itemsOf_bind (Mirrors.bind hmap (s.mark_le id) fun h₄ xs vs s₄ hxs => ?_)
        exact (arrayOf hxs).weaken ((s.trans (s₄.weaken (s.mark_le id))).mark_le id)
      | _ => exact .fail _
  · rw [hx, hv]
    have hothers : List.isEmpty (Slots.byText ((ks.remove "attribute").remove "default")) =
        (keywords.names.filter fun k => k != "attribute" && k != "default").isEmpty := by
      rw [← hks.names_eq, Slots.isEmpty_byText, Slots.names_remove, Slots.names_remove,
        List.filter_filter]
      exact congrArg List.isEmpty (List.filter_congr fun k _ => Bool.and_comm _ _)
    refine dictOf_bind ?_
    unfold Eval.mapAttribute
    rw [own₃.dict_eq, hothers, forall₂_isEmpty hxs]
    dsimp only
    split
    · exact .fail_bind _
    · have hfallback := Shows.getD (hks₃.lookup "default") .undefined
      exact (mapAttribute hfallback (hr.mono s) hattr).weaken (s.mark_le id)

end Mirrors

/-! ### By name -/

section
variable (host : Host) (scope : Scope)

def arrayFilter (name : Text) (r : ArrayRef) (c : Call) : Run Item := do
  match name.toString? with
  | some "length" => return .int (← itemsOf r).length
  | some "list" => return .array r
  | some "first" => return (← itemsOf r).head?.getD .undefined
  | some "last" => return (← itemsOf r).getLast?.getD .undefined
  | some "reverse" => arrayOf (← itemsOf r).reverse
  | some "sort" => sortFilter r c
  | some "unique" => uniqueFilter r
  | some "selectattr" => selectByAttribute host scope "selectattr" true r c
  | some "rejectattr" => selectByAttribute host scope "rejectattr" false r c
  | _ => fail (.unknownFilter name (some .array))

def stringFilter (name : Text) (s : Text) (c : Call) : Run Item := do
  made (Eval.stringFilter name s (← c.seen))

def objectFilter (name : Text) (r : ObjectRef) : Run Item := do
  match name.toString? with
  | some "length" => return .int (← slotsOf r).length
  | some "items" => pairs (← slotsOf r)
  | _ => fail (.unknownFilter name (some .object))

def filterOfKind (name : Text) (x : Item) (c : Call) : Run Item :=
  match x with
  | .array r => arrayFilter host scope name r c
  | .string s => stringFilter name s c
  | .object r => objectFilter name r
  | .int i => if name == "abs" then return .int i.natAbs else unknown
  | .float f => if name == "abs" then return .float f.abs else unknown
  | .bool b => if name == "bool" then return .bool b else unknown
  | _ => unknown
where
  unknown : Run Item := fail (.unknownFilter name (some x.kind))

/-- Every filter but `map`. -/
def plainFilter (name : Text) (x : Item) (c : Call) : Run Item := do
  match name.toString? with
  | some "tojson" => toJsonFilter x c
  | some "join" => joinFilter x c
  | some "int" => intFilter x c
  | some "float" => floatFilter x c
  | some "string" => return .string (← textOf x)
  | some "default" => defaultFilter x c
  | _ => filterOfKind host scope name x c

/-- Applies a filter, given what `map` applies others with. -/
def applyBy (apply : Text → Call → Item → Run Item) (name : Text) (c : Call) (x : Item) :
    Run Item :=
  match name.toString?, x with
  | some "map", .array r => mapFilter apply r c
  | _, _ => plainFilter host scope name x c

/-- Applies a filter. Each use of `map` inside another one takes one of the `n` positional
arguments. -/
def applyFilter : Nat → Text → Call → Item → Run Item
  | 0 => applyBy host scope fun _ _ _ => fail .mapNeedsName
  | n + 1 => applyBy host scope (applyFilter n)

namespace Mirrors
variable {x : Item} {v : Value} {c : Call} {a : Args}

theorem arrayFilter (name : Text) {r : ArrayRef} {vs : List Value}
    (hr : h.Shows (.array r) (.array vs)) (hc : h.ShowsCall c a) :
    Follows w Shows h (Heap.arrayFilter host scope name r c)
      (Eval.arrayFilter host scope name vs a) := by
  refine .of_sound fun sound => ?_
  have hvs := sound.shows_items_of_array hr
  unfold Eval.arrayFilter
  rw [← hvs.length_eq]
  split <;> rename_i hname <;> unfold Heap.arrayFilter
  · rw [hname]
    exact itemsOf_bind (.pure (.int _))
  · rw [hname]
    exact .pure hr
  · rw [hname]
    exact itemsOf_bind (.pure (.getD (forall₂_head? hvs) .undefined))
  · rw [hname]
    exact itemsOf_bind (.pure (.getD (forall₂_getLast? hvs) .undefined))
  · rw [hname]
    exact itemsOf_bind (arrayOf (List.rel_reverse hvs))
  · rw [hname]
    exact sortFilter hr hc
  · rw [hname]
    exact uniqueFilter hr
  · rw [hname]
    exact selectByAttribute host scope _ _ hr hc
  · rw [hname]
    exact selectByAttribute host scope _ _ hr hc
  · split <;> first | contradiction | exact .fail _

theorem objectFilter (name : Text) (r : ObjectRef) :
    Follows w Shows h (Heap.objectFilter name r) (Eval.objectFilter name r) := by
  unfold Eval.objectFilter
  split <;> rename_i hname <;> unfold Heap.objectFilter
  · rw [hname]
    refine slotsOf_bind r fun hs => ?_
    rw [hs.length_eq]
    exact .pure (.int _)
  · rw [hname]
    exact slotsOf_bind r fun hs => pairs hs
  · split <;> first | contradiction | exact .fail _

theorem filterOfKind (name : Text) (hx : h.Shows x v) (hc : h.ShowsCall c a) :
    Follows w Shows h (Heap.filterOfKind host scope name x c)
      (Eval.filterOfKind host scope name v a) := by
  refine .of_sound fun sound => ?_
  unfold Heap.filterOfKind Eval.filterOfKind Heap.filterOfKind.unknown Eval.filterOfKind.unknown
  rw [hx.kind_eq]
  cases sound.shown hx with
  | array => exact arrayFilter host scope name hx hc
  | string s => exact made_seen hc (Eval.Looks.stringFilter name s a)
  | object r => exact objectFilter name r
  | int i =>
    dsimp only
    split
    · exact .pure (.int _)
    · exact .fail _
  | float f =>
    dsimp only
    split
    · exact .pure (.float _)
    · exact .fail _
  | bool b =>
    dsimp only
    split
    · exact .pure (.bool b)
    · exact .fail _
  | _ => exact .fail _

theorem plainFilter (name : Text) (hx : h.Shows x v) (hc : h.ShowsCall c a) :
    Follows w Shows h (Heap.plainFilter host scope name x c)
      (Eval.plainFilter host scope name v a) := by
  unfold Eval.plainFilter
  split <;> rename_i hname <;> unfold Heap.plainFilter
  · rw [hname]
    exact toJsonFilter hx hc
  · rw [hname]
    exact joinFilter hx hc
  · rw [hname]
    exact intFilter hx hc
  · rw [hname]
    exact floatFilter hx hc
  · rw [hname]
    refine Follows.bind (textOf hx) ?_
    rintro _ t _ _ rfl
    exact .pure (.string t)
  · rw [hname]
    exact defaultFilter hx hc
  · split <;> first | contradiction | exact filterOfKind host scope name hx hc

theorem applyBy {apply : Text → Call → Item → Run Item} (name : Text) {positional : List Value}
    {keywords : Slots String Value} (hx : h.Shows x v) (hc : h.ShowsCall c ⟨positional, keywords⟩)
    (happly : ∀ inner rest, positional = .string inner :: rest → ∀ h' c' x v,
      h'.ShowsCall c' ⟨rest, keywords⟩ → h'.Shows x v →
      Follows w Shows h' (apply inner c' x) (Eval.applyFilter host scope keywords inner rest v)) :
    Follows w Shows h (Heap.applyBy host scope apply name c x)
      (Eval.applyFilter host scope keywords name positional v) := by
  have hplain := plainFilter host scope (w := w) name hx hc
  refine .of_sound fun sound => ?_
  unfold Heap.applyBy
  by_cases hmap : name.toString? = some "map"
  · unfold Eval.applyFilter
    rw [hmap]
    cases sound.shown hx with
    | array => exact mapFilter hx hc happly
    | _ => exact hplain
  · rw [Eval.applyFilter_of_ne_map hmap host scope v ⟨positional, keywords⟩]
    split
    · exact absurd (by assumption) hmap
    · exact hplain

theorem applyFilter {n : Nat} (name : Text) {positional : List Value}
    {keywords : Slots String Value} (hn : positional.length ≤ n) (hx : h.Shows x v)
    (hc : h.ShowsCall c ⟨positional, keywords⟩) :
    Follows w Shows h (Heap.applyFilter host scope n name c x)
      (Eval.applyFilter host scope keywords name positional v) := by
  induction n generalizing h name positional c x v with
  | zero =>
    refine applyBy host scope name hx hc fun inner rest hpositional => ?_
    rw [hpositional] at hn
    exact absurd hn (Nat.not_succ_le_zero _)
  | succ n ih =>
    refine applyBy host scope name hx hc fun inner rest hpositional h' c' x v hc' hx' => ?_
    rw [hpositional] at hn
    exact ih inner (Nat.le_of_succ_le_succ hn) hx' hc'

end Mirrors
end
end ChatTemplate.Heap
