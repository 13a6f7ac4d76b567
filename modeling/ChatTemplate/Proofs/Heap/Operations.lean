import ChatTemplate.Proofs.Eval.Looking
import ChatTemplate.Proofs.Heap.Arguments

/-!
# Operators, members and functions in a heap

What they answer is new, or is one of the items that they are given or find. Beside each operation
stands that it mirrors the one on values, and that is all it does: the dictionaries of objects stay
as they are.
-/

namespace ChatTemplate.Heap
variable {w : Bool} {m : Mark} {h : Heap}

/-! ### Operators, members and slices -/

/-- An operator that needs both of its operands. -/
def binary (op : String) (x y : Item) : Run Item := do
  match x, y with
  | .array a, .array b =>
    if op == "+" then arrayOf ((← itemsOf a) ++ (← itemsOf b))
    else made (Eval.binary op (← valueOf x) (← valueOf y))
  | x, y => made (Eval.binary op (← valueOf x) (← valueOf y))

/-- The member that a value has by its kind. -/
def builtinMember (x : Item) (name : Text) : Run Item := do
  match x with
  | .string s =>
    if name == "length" then return .int s.length
    else match StringMethod.ofName? name with
      | some m => newFunction (.stringMethod s m)
      | none => return .undefined
  | .array r =>
    let xs ← itemsOf r
    return if name == "length" then .int xs.length else .undefined
  | .object r =>
    match ObjectMethod.ofName? name with
    | some m => newFunction (.objectMethod r m)
    | none => return .undefined
  | _ => return .undefined

/-- `object[key]` -/
def lookupMember (object key : Item) : Run Item := do
  match object, key with
  | .object r, .string name =>
    match (← slotsOf r).lookup name with
    | some x => return x
    | none => builtinMember object name
  | .array r, .int i => look (Eval.element .array (← itemsOf r) i)
  | .string s, .int i => return .ofPoints [← look (Eval.element .string s.toList i)]
  | x, .string name => builtinMember x name
  | .array _, k | .string _, k => fail (.propertyNotStringOrInt k.kind)
  | _, k => fail (.propertyNotString k.kind)

def slice (object : Item) (start stop step : Option Int) : Run Item := do
  if step == some 0 then fail .sliceStepZero
  else match object with
    | .array r => arrayOf (Slice.pick (← itemsOf r) start stop (step.getD 1))
    | .string s => return .ofPoints (Slice.pick s.toList start stop (step.getD 1))
    | x => fail (.notSliceable x.kind)

namespace Mirrors
variable {x y : Item} {u v : Value}

theorem binary (op : String) (hx : h.Shows x u) (hy : h.Shows y v) :
    Follows w Shows h (Heap.binary op x y) (Eval.binary op u v) := by
  have hmade : Follows w Shows h
      (do Heap.made (Eval.binary op (← Heap.valueOf x) (← Heap.valueOf y))) (Eval.binary op u v) :=
    valueOf_bind hx (valueOf_bind hy (made (Eval.Looks.binary op u v)))
  refine .of_sound fun sound => ?_
  unfold Heap.binary
  split
  case h_1 a b =>
    by_cases hop : op = "+"
    · subst hop
      obtain ⟨us, rfl, hus⟩ := sound.shows_items hx
      obtain ⟨vs, rfl, hvs⟩ := sound.shows_items hy
      exact itemsOf_bind (itemsOf_bind (arrayOf (List.rel_append hus hvs)))
    · rw [beq_false_of_ne hop]
      exact hmade
  case h_2 => exact hmade

theorem builtinMember (hx : h.Shows x v) (name : Text) :
    Follows w Shows h (Heap.builtinMember x name) (Eval.builtinMember v name) := by
  refine .of_sound fun sound => ?_
  unfold Heap.builtinMember Eval.builtinMember
  cases sound.shown hx with
  | string s =>
    dsimp only
    split
    · exact .pure (.int _)
    · cases StringMethod.ofName? name with
      | some m => exact newFunction _
      | none => exact .pure .undefined
  | array hvs =>
    refine itemsOf_bind ?_
    rw [hvs.length_eq]
    split
    · exact .pure (.int _)
    · exact .pure .undefined
  | object r =>
    dsimp only
    cases ObjectMethod.ofName? name with
    | some m => exact newFunction _
    | none => exact .pure .undefined
  | _ => exact .pure .undefined

theorem element (kind : ValueKind) {xs : List Item} {vs : List Value} (hxs : h.ShowsAll xs vs)
    (i : Int) :
    Mirrors m Shows h (Heap.look (Eval.element kind xs i)) (Eval.element kind vs i) := by
  refine look_of (Eval.Looks.element kind vs i) fun _ => ?_
  let place := if i < 0 then i + vs.length else i
  have hplace : Option.Rel h.Shows (if place < 0 then Option.none else xs[place.toNat]?)
      (if place < 0 then Option.none else vs[place.toNat]?) := by
    split
    · exact .none
    · exact forall₂_getElem? hxs _
  unfold Eval.element
  simp only [hxs.length_eq]
  rcases optionRel_cases hplace with ⟨hx, hv⟩ | ⟨x, v, hx, hv, hshows⟩
  · rw [hx, hv, Eval.result_bind, Eval.result_bind]
    cases (Eval.integerText i).result h.store <;> exact .error _
  · rw [hx, hv]
    exact .ok hshows

theorem lookupMember (hx : h.Shows x u) (hy : h.Shows y v) :
    Follows w Shows h (Heap.lookupMember x y) (Eval.lookupMember u v) := by
  refine .of_sound fun sound => ?_
  have hmember (name : Text) := builtinMember (w := w) hx name
  unfold Heap.lookupMember Eval.lookupMember
  cases sound.shown hy with
  | string name =>
    cases sound.shown hx with
    | object r =>
      refine slotsOf_bind r fun hs => ?_
      rcases optionRel_cases (hs.lookup name) with ⟨hx, hv⟩ | ⟨x, v, hx, hv, hshows⟩
      · rw [hx, hv]
        exact hmember name
      · rw [hx, hv]
        exact .pure hshows
    | _ => exact hmember name
  | int i =>
    cases sound.shown hx with
    | array hvs => exact itemsOf_bind (element .array hvs i)
    | string s =>
      refine Follows.bind (look (Eval.Looks.element .string s.toList i)) ?_
      rintro h' c _ s rfl
      exact .pure (.ofPoints _)
    | _ => exact .fail _
  | _ =>
    cases sound.shown hx with
    | _ => exact .fail _

theorem slice (hx : h.Shows x v) (start stop step : Option Int) :
    Follows w Shows h (Heap.slice x start stop step) (Eval.slice v start stop step) := by
  refine .of_sound fun sound => ?_
  unfold Heap.slice Eval.slice
  split
  · exact .fail _
  · cases sound.shown hx with
    | array hvs => exact itemsOf_bind (arrayOf (Slice.pick_forall₂ hvs start stop _))
    | string s => exact .pure (.ofPoints _)
    | _ => exact .fail _

end Mirrors

/-! ### Methods -/

def asString (method : String) (x : Item) : Run Text := do look (Eval.asString method (← valueOf x))

def callStringMethod (s : Text) (m : StringMethod) (c : Call) : Run Item := do
  made (Eval.callStringMethod s m (← c.seen))

/-- An object's names with their items, as pairs. -/
def pairs (s : Slots Text Item) : Run Item := do
  arrayOf (← s.mapM fun (k, x) => arrayOf [.string k, x])

def callObjectMethod (r : ObjectRef) (m : ObjectMethod) (c : Call) : Run Item := do
  match m with
  | .get =>
    let picked ← c.pick m.name ["key", "default"]
    match picked.lookup "key" with
    | none => fail (.tooFewArguments m.name 1)
    | some key =>
      let name ← asString m.name key
      return ((← slotsOf r).lookup name).getD ((picked.lookup "default").getD .null)
  | .items =>
    c.expectCount m.name 0 0
    pairs (← slotsOf r)
  | .keys =>
    c.expectCount m.name 0 0
    arrayOf ((← slotsOf r).names.map .string)
  | .values =>
    c.expectCount m.name 0 0
    arrayOf ((← slotsOf r).map Prod.snd)

/-! ### Exchanging values with the host -/

def toHost (x : Item) : Run HostValue := do look (Eval.toHost (← valueOf x))

mutual

/-- Takes a value over from the host. -/
def ofHost : HostValue → Run Item
  | .null => return .null
  | .bool b => return .bool b
  | .int i => return .int i
  | .float f => return .float f
  | .string s => return .string s
  | .list items | .tuple items => do arrayOf (← ofHostItems items)
  | .map entries => do objectOf (Slots.putAll [] (← ofHostEntries entries))
  | .callable f => newFunction (.host f)
  | .foreign typeName => fail (.notConvertible typeName)
  | .value v => fresh v

def ofHostItems : List HostValue → Run (List Item)
  | [] => return []
  | v :: vs => do
    let x ← ofHost v
    return x :: (← ofHostItems vs)

def ofHostEntries : List (HostKey × HostValue) → Run (Slots Text Item)
  | [] => return []
  | e :: es => do
    let x ← ofHostEntry e
    return x :: (← ofHostEntries es)

def ofHostEntry : HostKey × HostValue → Run (Text × Item)
  | (k, v) => return (k.name, ← ofHost v)

end

/-! ### The global functions -/

/-- The integers from a first one, or zero, up to but not including a last one. -/
def callRange (c : Call) : Run Item := do made (Eval.callRange (← c.seen))

def callRaise (c : Call) : Run Item := do
  match ← c.values with
  | [] => fail (.raised "Template raised an exception")
  | x :: _ => fail (.raised (← textOf x))

/-- A new object of the keywords, taken from a copy, or the very object that is the argument. -/
def callNamespace (c : Call) : Run Item := do
  let own ← c.copy
  let positional ← listOf own.positional
  let keywords ← dictOf own.keywords
  match positional with
  | [] => newObject own.keywords
  | [.object r] => if keywords.isEmpty then return .object r else fail .namespaceArguments
  | _ => fail .namespaceArguments

def callHost (host : Host) (f : HostFunction) (c : Call) : Run Item := do
  let own ← c.copy
  let positional ← (← listOf own.positional).mapM toHost
  let keywords ← (← namedOf own.keywords).mapM fun (k, x) => return (k, ← toHost x)
  match host.call f positional keywords with
  | .ok v => ofHost v
  | .error e => throw e

namespace Mirrors
variable {x : Item} {v : Value} {c : Call} {a : Args}

theorem asString (hx : h.Shows x v) (method : String) :
    Mirrors m Same h (Heap.asString method x) (Eval.asString method v) :=
  valueOf_bind hx (look (Eval.Looks.asString method v))

theorem toHost (hx : h.Shows x v) : Mirrors m Same h (Heap.toHost x) (Eval.toHost v) :=
  valueOf_bind hx (look (Eval.Looks.toHost v))

theorem callStringMethod (s : Text) (method : StringMethod) (hc : h.ShowsCall c a) :
    Follows w Shows h (Heap.callStringMethod s method c) (Eval.callStringMethod s method a) :=
  made_seen hc (Eval.Looks.callStringMethod s method a)

theorem pairs {s : Slots Text Item} {t : Slots Text Value} (hs : h.ShowsSlots s t) :
    Follows w Shows h (Heap.pairs s) (Pure.pure (Eval.pairs t)) := by
  have hpairs : Follows w ShowsAll h (s.mapM fun e => Heap.arrayOf [.string e.1, e.2])
      (t.mapM fun e => (Pure.pure (.array [.string e.1, e.2]) : Eval Value)) := by
    refine Follows.mapM stable_showsEntry stable_shows ?_ hs
    rintro h' ⟨k, x⟩ ⟨k', v⟩ s ⟨hname, hx⟩
    obtain rfl : k = k' := hname
    exact arrayOf (.cons (.string k) (.cons hx .nil))
  rw [List.mapM_pure] at hpairs
  have hbind := hpairs.bind (S := Shows) (f := Heap.arrayOf)
    (g := fun vs => (Pure.pure (.array vs) : Eval Value)) fun _ _ _ _ hxs => arrayOf hxs
  rwa [pure_bind] at hbind

theorem callObjectMethod (r : ObjectRef) (method : ObjectMethod) (hc : h.ShowsCall c a) :
    Follows w Shows h (Heap.callObjectMethod r method c) (Eval.callObjectMethod r method a) := by
  unfold Heap.callObjectMethod Eval.callObjectMethod
  cases method with
  | get =>
    refine (pick hc _ _).bind fun h₁ picked picked' s₁ hpicked => ?_
    rcases optionRel_cases (hpicked.lookup "key") with ⟨hx, hv⟩ | ⟨x, v, hx, hv, hshows⟩
    · rw [hx, hv]
      exact .fail _
    · rw [hx, hv]
      refine Follows.bind (asString hshows _) ?_
      rintro h₂ name _ s₂ rfl
      have hdefault := Shows.getD (hpicked.lookup "default") .null
      exact slotsOf_bind r fun hs => .pure (.getD (hs.lookup name) (hdefault.mono s₂))
  | items => exact Follows.bind (expectCount hc _ 0 0) fun _ _ _ _ _ => slotsOf_bind r pairs
  | keys =>
    refine Follows.bind (expectCount hc _ 0 0) fun _ _ _ _ _ => slotsOf_bind r fun hs => ?_
    rw [hs.names_eq]
    exact arrayOf (showsAll_strings _)
  | values =>
    refine Follows.bind (expectCount hc _ 0 0) fun _ _ _ _ _ => slotsOf_bind r fun hs => ?_
    exact arrayOf hs.values

mutual

theorem ofHost {h : Heap} (v : HostValue) : Follows w Shows h (Heap.ofHost v) (Eval.ofHost v) := by
  unfold Heap.ofHost Eval.ofHost
  cases v with
  | null => exact .pure .null
  | bool b => exact .pure (.bool b)
  | int i => exact .pure (.int i)
  | float f => exact .pure (.float f)
  | string s => exact .pure (.string s)
  | list vs => exact (ofHostItems vs).bind fun _ _ _ _ hxs => arrayOf hxs
  | tuple vs => exact (ofHostItems vs).bind fun _ _ _ _ hxs => arrayOf hxs
  | map es =>
    exact (ofHostEntries es).bind fun _ _ _ _ hs => objectOf (Slots.Related.putAll .nil hs)
  | callable f => exact newFunction (.host f)
  | foreign typeName => exact .fail _
  | value v => exact fresh v

theorem ofHostItems {h : Heap} (vs : List HostValue) :
    Follows w ShowsAll h (Heap.ofHostItems vs) (Eval.ofHostItems vs) := by
  unfold Heap.ofHostItems Eval.ofHostItems
  cases vs with
  | nil => exact .pure .nil
  | cons v vs =>
    refine (ofHost v).bind fun _ _ _ _ hx => (ofHostItems vs).bind fun _ _ _ s hxs => ?_
    exact .pure (.cons (hx.mono s) hxs)

theorem ofHostEntries {h : Heap} (es : List (HostKey × HostValue)) :
    Follows w ShowsSlots h (Heap.ofHostEntries es) (Eval.ofHostEntries es) := by
  unfold Heap.ofHostEntries Eval.ofHostEntries
  cases es with
  | nil => exact .pure .nil
  | cons e es =>
    obtain ⟨k, v⟩ := e
    unfold Heap.ofHostEntry Eval.ofHostEntry
    dsimp only
    rw [bind_assoc, bind_assoc]
    refine (ofHost v).bind fun _ _ _ _ hx => (ofHostEntries es).bind fun _ _ _ s hs => ?_
    exact .pure (.cons ⟨rfl, hx.mono s⟩ hs)

end

theorem callRange (hc : h.ShowsCall c a) :
    Follows w Shows h (Heap.callRange c) (Eval.callRange a) :=
  made_seen hc (Eval.Looks.callRange a)

theorem callRaise (hc : h.ShowsCall c a) :
    Follows w Shows h (Heap.callRaise c) (Eval.callRaise a) := by
  refine (values hc).bind fun h' xs vs s hxs => ?_
  cases hxs with
  | nil => exact .fail _
  | cons hx _ =>
    refine Follows.bind (textOf hx) ?_
    rintro _ t _ _ rfl
    exact .fail _

theorem callNamespace (hc : h.ShowsCall c a) :
    Follows w Shows h (Heap.callNamespace c) (Eval.callNamespace a) := by
  unfold Heap.callNamespace Eval.callNamespace
  refine copy_bind (w := w) hc (.refl _) fun h' c' s hc' _ hd => listOf_bind (dictOf_bind ?_)
  rw [hc'.isEmpty_eq]
  have hxs := hc'.list
  generalize h'.list c'.positional = xs at hxs ⊢
  generalize a.positional = vs at hxs ⊢
  cases hxs with
  | nil =>
    obtain ⟨ks, own, -⟩ := hc'.keywords
    exact newObject own (own.dict_eq ▸ hc'.slots) hd
  | cons hx hrest =>
    refine .of_sound fun sound => ?_
    cases sound.shown hx with
    | object r =>
      cases hrest with
      | cons => exact .fail _
      | nil =>
        dsimp only
        split
        · exact .pure (.object r)
        · exact .fail _
    | _ => exact .fail _

theorem callHost (host : Host) (f : HostFunction) (hc : h.ShowsCall c a) :
    Follows w Shows h (Heap.callHost host f c) (Eval.callHost host f a) := by
  unfold Heap.callHost Eval.callHost
  refine Follows.copy_bind hc fun h₁ c₁ s₁ hc₁ => listOf_bind ?_
  have hpositional : Follows w (fun _ => List.Forall₂ Eq) h₁
      ((h₁.list c₁.positional).mapM Heap.toHost) (a.positional.mapM Eval.toHost) :=
    .mapM stable_shows stable_same (fun _ _ _ _ hx => toHost hx) hc₁.list
  refine hpositional.bind fun h₂ ps ps' s₂ hps => namedOf_bind ?_
  have hkeywords : Follows w (fun _ => List.Forall₂ Eq) h₂
      ((h₂.dict c₁.keywords).byString.mapM fun e => return (e.1, ← Heap.toHost e.2))
      (a.keywords.mapM fun e => return (e.1, ← Eval.toHost e.2)) := by
    refine .mapM stable_showsEntry stable_same ?_ (hc₁.mono s₂).named
    rintro h ⟨k, x⟩ ⟨k', v⟩ s ⟨hname, hx⟩
    obtain rfl : k = k' := hname
    refine Follows.bind (toHost hx) ?_
    rintro _ t _ _ rfl
    exact .pure rfl
  refine hkeywords.bind fun h₃ ks ks' s₃ hks => ?_
  obtain rfl : ps = ps' := List.forall₂_eq_eq_eq ▸ hps
  obtain rfl : ks = ks' := List.forall₂_eq_eq_eq ▸ hks
  cases host.call f ps ks with
  | ok v => exact ofHost v
  | error e => exact .throw e

end Mirrors
end ChatTemplate.Heap
