import ChatTemplate.Eval.Calls
import ChatTemplate.Eval.Members
import ChatTemplate.Eval.Operators
import ChatTemplate.Eval.Tests
import ChatTemplate.Proofs.Eval.Simulation

/-!
# Operations that are blind to references

Operators, members, methods, tests and functions do not tell values apart that are alike: in stores
that are alike they fail alike or answer with values that are alike (`Eval.Matches`). References are
only followed, or compared with each other.
-/

namespace ChatTemplate
variable {u : View}

/-- The arguments are alike one by one, and go by the same keywords. -/
structure Args.Alike (p : Pairing) (a b : Args) : Prop where
  positional : List.Forall₂ (Value.Alike p) a.positional b.positional
  keywords : Slots.Related (Value.Alike p) a.keywords b.keywords

namespace Args.Alike
variable {p : Pairing} {a b : Args}

theorem none : Args.none.Alike p Args.none := ⟨.nil, .nil⟩

theorem count_eq (h : a.Alike p b) : a.count = b.count := by
  simp only [Args.count, h.positional.length_eq, h.keywords.isEmpty_eq]

theorem slots (h : a.Alike p b) : Slots.Related (Value.Alike p) a.slots b.slots := by
  unfold Args.slots
  rw [Slots.Related, List.forall₂_map_left_iff, List.forall₂_map_right_iff]
  exact h.keywords.imp fun x y hxy => ⟨congrArg Text.ofString hxy.1, hxy.2⟩

end Args.Alike

namespace Eval.Matches
variable {a b : Args} {v v' w w' : Value} {vs vs' : List Value}

/-! ### Arguments -/

theorem values (h : a.Alike u.toPairing b) :
    Matches u (List.Forall₂ (Value.Alike u.toPairing)) a.values b.values := by
  unfold Args.values
  rw [h.keywords.isEmpty_eq]
  split
  · exact .pure h.positional
  · exact (newObject h.slots).bind fun _ _ hv =>
      .pure (List.rel_append h.positional (.cons hv .nil))

theorem expectCount (h : a.Alike u.toPairing b) (method : String) (least most : Nat) :
    Matches u Eq (a.expectCount method least most) (b.expectCount method least most) := by
  unfold Args.expectCount
  rw [h.count_eq]
  split
  · exact .pure rfl
  · exact .fail _

theorem pick (h : a.Alike u.toPairing b) (method : String) (params : List String) :
    Matches u (Slots.Related (Value.Alike u.toPairing)) (a.pick method params)
      (b.pick method params) := by
  have hfind : (a.keywords.find? fun e => !params.contains e.1).map Prod.fst =
      (b.keywords.find? fun e => !params.contains e.1).map Prod.fst := by
    have hnames := congrArg (List.find? fun k => !params.contains k) h.keywords.names_eq
    simpa only [Slots.names, List.find?_map, Function.comp_def] using hnames
  unfold Args.pick
  simp only [h.positional.length_eq]
  split
  · exact fail_bind _
  cases ha : a.keywords.find? fun e => !params.contains e.1 with
  | none =>
    cases hb : b.keywords.find? fun e => !params.contains e.1 with
    | none => exact .pure (.putAll (forall₂_zip params h.positional) h.keywords)
    | some e => rw [ha, hb] at hfind; cases hfind
  | some e =>
    cases hb : b.keywords.find? fun e => !params.contains e.1 with
    | none => rw [ha, hb] at hfind; cases hfind
    | some e' =>
      obtain ⟨k, x⟩ := e
      obtain ⟨k', x'⟩ := e'
      rw [ha, hb] at hfind
      obtain rfl : k = k' := Option.some.inj hfind
      exact .fail _

theorem asString (method : String) (h : v.Alike u.toPairing v') :
    Matches u Eq (Eval.asString method v) (Eval.asString method v') := by
  cases h with
  | string s => exact .pure rfl
  | _ => exact .fail _

theorem asString? (method : String) {x y : Option Value}
    (h : Option.Rel (Value.Alike u.toPairing) x y) :
    Matches u Eq (Eval.asString? method x) (Eval.asString? method y) := by
  cases h with
  | none => exact .pure rfl
  | some h =>
    have hstring := (asString method h).map (S := Eq) fun _ _ => congrArg some
    cases h with
    | null => exact .pure rfl
    | undefined => exact .pure rfl
    | _ => exact hstring

theorem asInt (method : String) (h : v.Alike u.toPairing v') :
    Matches u Eq (Eval.asInt method v) (Eval.asInt method v') := by
  cases h with
  | int i => exact .pure rfl
  | _ => exact .fail _

theorem asLimit (method : String) {x y : Option Value}
    (h : Option.Rel (Value.Alike u.toPairing) x y) :
    Matches u Eq (Eval.asLimit method x) (Eval.asLimit method y) := by
  cases h with
  | none => exact .pure rfl
  | some h => exact asInt method h

theorem asSize (i : Int) (whole : Nat) :
    Matches u Eq (Eval.asSize i whole) (Eval.asSize i whole) := by
  unfold Eval.asSize
  split
  · exact .escape _
  · exact .pure rfl

/-! ### Members and slices -/

theorem builtinMember (h : v.Alike u.toPairing v') (name : Text) :
    Matches u (Value.Alike u.toPairing) (Eval.builtinMember v name)
      (Eval.builtinMember v' name) := by
  unfold Eval.builtinMember
  cases h with
  | string s =>
    dsimp only
    split
    · exact .pure (.int _)
    · split
      · exact newFunction (.stringMethod s _)
      · exact .pure .undefined
  | array hvs =>
    dsimp only
    rw [hvs.length_eq]
    split
    · exact .pure (.int _)
    · exact .pure .undefined
  | object hrs =>
    dsimp only
    split
    · exact newFunction (.objectMethod hrs _)
    · exact .pure .undefined
  | _ => exact .pure .undefined

theorem integerText (i : Int) : Matches u Eq (Eval.integerText i) (Eval.integerText i) := by
  unfold Eval.integerText
  split
  · exact .pure rfl
  · exact .escape _

theorem numberText (n : Number) : Matches u Eq (Eval.numberText n) (Eval.numberText n) := by
  cases n with
  | int i => exact integerText i
  | float f => exact .pure rfl

theorem element {α β : Type} {R : α → β → Prop} (kind : ValueKind) {xs : List α} {ys : List β}
    (h : List.Forall₂ R xs ys) (i : Int) :
    Matches u R (Eval.element kind xs i) (Eval.element kind ys i) := by
  let place := if i < 0 then i + ys.length else i
  have hplace : Option.Rel R (if place < 0 then Option.none else xs[place.toNat]?)
      (if place < 0 then Option.none else ys[place.toNat]?) := by
    split
    · exact .none
    · exact forall₂_getElem? h _
  unfold Eval.element
  simp only [h.length_eq]
  rcases optionRel_cases hplace with ⟨hx, hy⟩ | ⟨x, y, hx, hy, hxy⟩
  · rw [hx, hy]
    refine (integerText i).bind ?_
    rintro text _ rfl
    exact .fail _
  · rw [hx, hy]
    exact .pure hxy

theorem lookupMember (hv : v.Alike u.toPairing v') (hw : w.Alike u.toPairing w') :
    Matches u (Value.Alike u.toPairing) (Eval.lookupMember v w) (Eval.lookupMember v' w') := by
  unfold Eval.lookupMember
  cases hv with
  | object hrs =>
    cases hw with
    | string name =>
      refine (slotsOf hrs).bind fun s t hst => ?_
      rcases optionRel_cases (hst.lookup name) with ⟨hx, hy⟩ | ⟨x, y, hx, hy, hxy⟩
      · rw [hx, hy]
        exact builtinMember (.object hrs) name
      · rw [hx, hy]
        exact .pure hxy
    | _ => exact .fail _
  | array hvs =>
    cases hw with
    | int i => exact element .array hvs i
    | string name => exact builtinMember (.array hvs) name
    | _ => exact .fail _
  | string s =>
    cases hw with
    | int i =>
      refine (element .string (List.forall₂_eq_eq_eq ▸ rfl) i).bind ?_
      rintro c _ rfl
      exact .pure (.ofPoints _)
    | string name => exact builtinMember (.string s) name
    | _ => exact .fail _
  | _ =>
    cases hw with
    | string name => exact builtinMember (by constructor <;> assumption) name
    | _ => exact .fail _

theorem sliceBound (h : v.Alike u.toPairing v') :
    Matches u Eq (Eval.sliceBound v) (Eval.sliceBound v') := by
  cases h with
  | int i => exact .pure rfl
  | undefined => exact .pure rfl
  | _ => exact .fail _

theorem slice (h : v.Alike u.toPairing v') (start stop step : Option Int) :
    Matches u (Value.Alike u.toPairing) (Eval.slice v start stop step)
      (Eval.slice v' start stop step) := by
  unfold Eval.slice
  split
  · exact .fail _
  cases h with
  | array hvs => exact .pure (.array (Slice.pick_forall₂ hvs start stop _))
  | string s => exact .pure (.ofPoints _)
  | _ => exact .fail _

/-! ### Operators -/

theorem inRange (op : String) (n : Except Int Number) :
    Matches u (Value.Alike u.toPairing) (Eval.inRange op n) (Eval.inRange op n) := by
  cases n with
  | error i => exact .escape _
  | ok n => exact .pure (.ofNumber n)

theorem numeric (op : String) (m n : Number) :
    Matches u (Value.Alike u.toPairing) (Eval.numeric op m n) (Eval.numeric op m n) := by
  unfold Eval.numeric
  split
  case h_4 =>
    split
    · exact .fail _
    · split
      · exact .pure (.ofNumber _)
      · refine (numberText m).bind ?_
        rintro left _ rfl
        refine (numberText n).bind ?_
        rintro right _ rfl
        exact .fail _
  case h_5 =>
    split
    · exact .fail _
    · exact inRange _ _
  case h_10 => exact .fail _
  all_goals first | exact inRange _ _ | exact .pure (.bool _)

theorem sum (hv : v.Alike u.toPairing v') (hw : w.Alike u.toPairing w') :
    Matches u (Value.Alike u.toPairing) (Eval.sum v w) (Eval.sum v' w') := by
  have hjoin : ∀ {x x' : Value} {y : Text}, x.Alike u.toPairing x' →
      Matches u (Value.Alike u.toPairing) (do return .string ((← Eval.textOf x) ++ y))
        (do return .string ((← Eval.textOf x') ++ y)) := by
    intro x x' y hx
    refine (textOf hx).bind ?_
    rintro t _ rfl
    exact .pure (.string _)
  unfold Eval.sum
  cases hv with
  | array hvs =>
    cases hw with
    | array hws => exact .pure (.array (List.rel_append hvs hws))
    | string s => exact hjoin (.array hvs)
    | _ => exact .fail _
  | string s =>
    refine (textOf hw).bind ?_
    rintro t _ rfl
    exact .pure (.string _)
  | _ =>
    cases hw with
    | string s => exact hjoin (by constructor <;> assumption)
    | _ => exact .fail _

theorem contained (op : String) (hv : v.Alike u.toPairing v') (hw : w.Alike u.toPairing w') :
    Matches u Eq (Eval.contained op v w) (Eval.contained op v' w') := by
  unfold Eval.contained
  cases hw with
  | array hws => exact holds? hws hv
  | string t =>
    cases hv with
    | string s => exact .pure rfl
    | _ => exact .fail _
  | object hrs =>
    cases hv with
    | string name =>
      exact (slotsOf hrs).bind fun s t hst => .pure (optionRel_isSome (hst.lookup name))
    | _ => exact .fail _
  | _ =>
    cases hv <;> exact .fail _

theorem present (op : String) (hv : v.Alike u.toPairing v') (hw : w.Alike u.toPairing w') :
    Matches u (Value.Alike u.toPairing) (Eval.present op v w) (Eval.present op v' w') := by
  unfold Eval.present
  rw [hv.number?_eq, hw.number?_eq]
  split
  · refine (textOf hv).bind ?_
    rintro s _ rfl
    refine (textOf hw).bind ?_
    rintro t _ rfl
    exact .pure (.string _)
  split
  · exact numeric op _ _
  split
  · exact sum hv hw
  split
  · refine (contained op hv hw).bind ?_
    rintro found _ rfl
    exact .pure (.bool _)
  · exact .fail _

theorem binary (op : String) (hv : v.Alike u.toPairing v') (hw : w.Alike u.toPairing w') :
    Matches u (Value.Alike u.toPairing) (Eval.binary op v w) (Eval.binary op v' w') := by
  have hpresent := present op hv hw
  unfold Eval.binary
  split
  · refine (equal hv hw).bind ?_
    rintro c _ rfl
    exact .pure (.bool c)
  split
  · refine (equal hv hw).bind ?_
    rintro c _ rfl
    exact .pure (.bool !c)
  cases hw with
  | undefined =>
    have hnone : Matches u (Value.Alike u.toPairing)
        (if op == "in" || op == "not in" then Pure.pure (membership op false)
          else Eval.fail (.undefinedOperand op))
        (if op == "in" || op == "not in" then Pure.pure (membership op false)
          else Eval.fail (.undefinedOperand op)) := by
      split
      · exact .pure (Value.Alike.bool _)
      · exact .fail _
    cases hv <;> exact hnone
  | null =>
    cases hv with
    | undefined => exact .fail _
    | _ => exact .fail _
  | _ =>
    cases hv with
    | undefined => exact .fail _
    | null => exact .fail _
    | _ => exact hpresent

/-! ### Methods -/

theorem stripped (method : String) (how : (Codepoint → Bool) → List Codepoint → List Codepoint)
    (s : Text) (h : a.Alike u.toPairing b) :
    Matches u (Value.Alike u.toPairing) (Eval.stripped method how s a)
      (Eval.stripped method how s b) := by
  unfold Eval.stripped
  refine (pick h method ["chars"]).bind fun picked picked' hpicked => ?_
  refine (asString? method (hpicked.lookup "chars")).bind ?_
  rintro chars _ rfl
  cases chars with
  | none => exact .pure (.ofPoints _)
  | some chars => exact .pure (.ofPoints _)

theorem affixed (method : String) (fits : List Codepoint → List Codepoint → Bool) (s : Text)
    (h : a.Alike u.toPairing b) :
    Matches u (Value.Alike u.toPairing) (Eval.affixed method fits s a)
      (Eval.affixed method fits s b) := by
  have hone : ∀ {x x' : Value}, x.Alike u.toPairing x' →
      Matches u (Value.Alike u.toPairing)
        (do return .bool (fits (← Eval.asString method x).toList s.toList))
        (do return .bool (fits (← Eval.asString method x').toList s.toList)) := by
    intro x x' hx
    refine (asString method hx).bind ?_
    rintro t _ rfl
    exact .pure (.bool _)
  unfold Eval.affixed
  refine (expectCount h method 1 1).bind fun _ _ _ => ?_
  have hpositional := h.positional
  generalize a.positional = xs, b.positional = ys at hpositional ⊢
  rcases hpositional with _ | ⟨hx, hxs⟩
  · exact .fail _
  rcases hxs with _ | ⟨_, _⟩
  · cases hx with
    | array hvs =>
      refine (mapM hvs fun _ _ => asString method).bind ?_
      intro affixes affixes' haffixes
      rw [List.forall₂_eq_eq_eq] at haffixes
      subst haffixes
      exact .pure (.bool _)
    | string t => exact hone (.string t)
    | object hrs => exact hone (.object hrs)
    | function hrs => exact hone (.function hrs)
    | undefined => exact hone .undefined
    | null => exact hone .null
    | bool c => exact hone (.bool c)
    | int i => exact hone (.int i)
    | float f => exact hone (.float f)
  · cases hx <;> exact .fail _

theorem splitString (s : Text) (h : a.Alike u.toPairing b) :
    Matches u (Value.Alike u.toPairing) (Eval.splitString s a) (Eval.splitString s b) := by
  have harray : ∀ pieces : List (List Codepoint),
      (Value.array (pieces.map .ofPoints)).Alike u.toPairing (.array (pieces.map .ofPoints)) := by
    intro pieces
    refine .array ?_
    rw [List.forall₂_map_left_iff, List.forall₂_map_right_iff]
    exact List.forall₂_same.mpr fun cs _ => .ofPoints cs
  unfold Eval.splitString
  refine (pick h _ _).bind fun picked picked' hpicked => ?_
  refine (asLimit _ (hpicked.lookup _)).bind ?_
  rintro limit _ rfl
  refine (asString? _ (hpicked.lookup _)).bind ?_
  rintro sep _ rfl
  refine (asSize _ _).bind ?_
  rintro n _ rfl
  cases sep with
  | none => exact .pure (harray _)
  | some sep =>
    dsimp only
    split
    · exact .escape _
    · exact .pure (harray _)

theorem replaceInString (s : Text) (h : a.Alike u.toPairing b) :
    Matches u (Value.Alike u.toPairing) (Eval.replaceInString s a)
      (Eval.replaceInString s b) := by
  unfold Eval.replaceInString
  refine (pick h _ _).bind fun picked picked' hpicked => ?_
  rcases optionRel_cases (hpicked.lookup "old") with ⟨hx, hy⟩ | ⟨old, old', hx, hy, hold⟩
  · rw [hx, hy]
    exact .fail _
  rcases optionRel_cases (hpicked.lookup "new") with ⟨hx', hy'⟩ | ⟨new, new', hx', hy', hnew⟩
  · rw [hx, hy, hx', hy']
    exact .fail _
  rw [hx, hy, hx', hy']
  refine (asLimit _ (hpicked.lookup _)).bind ?_
  rintro limit _ rfl
  refine (asString _ hold).bind ?_
  rintro old _ rfl
  refine (asString _ hnew).bind ?_
  rintro new _ rfl
  refine (asSize _ _).bind ?_
  rintro n _ rfl
  exact .pure (.ofPoints _)

theorem mapped (m : StringMethod) (f : List Codepoint → List Codepoint) (s : Text)
    (h : a.Alike u.toPairing b) :
    Matches u (Value.Alike u.toPairing) (Eval.mapped m f s a) (Eval.mapped m f s b) :=
  (expectCount h m.name 0 0).bind fun _ _ _ => .pure (.ofPoints _)

theorem callStringMethod (s : Text) (m : StringMethod) (h : a.Alike u.toPairing b) :
    Matches u (Value.Alike u.toPairing) (Eval.callStringMethod s m a)
      (Eval.callStringMethod s m b) := by
  cases m with
  | upper => exact mapped _ _ s h
  | lower => exact mapped _ _ s h
  | title => exact mapped _ _ s h
  | capitalize => exact mapped _ _ s h
  | strip => exact stripped _ _ s h
  | lstrip => exact stripped _ _ s h
  | rstrip => exact stripped _ _ s h
  | startswith => exact affixed _ _ s h
  | endswith => exact affixed _ _ s h
  | split => exact splitString s h
  | replace => exact replaceInString s h

theorem pairs_alike {s t : Slots Text Value} (h : Slots.Related (Value.Alike u.toPairing) s t) :
    (Eval.pairs s).Alike u.toPairing (Eval.pairs t) := by
  refine .array ?_
  rw [List.forall₂_map_left_iff, List.forall₂_map_right_iff]
  refine h.imp ?_
  rintro ⟨k, x⟩ ⟨k', y⟩ ⟨rfl, hxy⟩
  exact .array (.cons (.string k) (.cons hxy .nil))

theorem callObjectMethod {r s : ObjectRef} (hrs : u.objects r s) (m : ObjectMethod)
    (h : a.Alike u.toPairing b) :
    Matches u (Value.Alike u.toPairing) (Eval.callObjectMethod r m a)
      (Eval.callObjectMethod s m b) := by
  unfold Eval.callObjectMethod
  cases m with
  | get =>
    refine (pick h _ _).bind fun picked picked' hpicked => ?_
    rcases optionRel_cases (hpicked.lookup "key") with ⟨hx, hy⟩ | ⟨key, key', hx, hy, hkey⟩
    · rw [hx, hy]
      exact .fail _
    rw [hx, hy]
    refine (asString _ hkey).bind ?_
    rintro name _ rfl
    refine (slotsOf hrs).bind fun slots slots' hslots => .pure ?_
    exact .getD (hslots.lookup name) (.getD (hpicked.lookup "default") .null)
  | items =>
    exact (expectCount h _ 0 0).bind fun _ _ _ => (slotsOf hrs).bind fun _ _ hslots =>
      .pure (pairs_alike hslots)
  | keys =>
    refine (expectCount h _ 0 0).bind fun _ _ _ => (slotsOf hrs).bind fun _ _ hslots => ?_
    rw [hslots.names_eq]
    exact .pure (.array (Value.Alike.strings _))
  | values =>
    exact (expectCount h _ 0 0).bind fun _ _ _ => (slotsOf hrs).bind fun _ _ hslots =>
      .pure (.array hslots.values)

/-! ### Tests -/

theorem testInt (test : String) (h : v.Alike u.toPairing v') :
    Matches u Eq (Eval.testInt test v) (Eval.testInt test v') := by
  cases h with
  | int i => exact .pure rfl
  | _ => exact .fail _

theorem isFixed_eq (f : List Codepoint → List Codepoint) (h : v.Alike u.toPairing v') :
    Eval.isFixed f v = Eval.isFixed f v' := by
  cases h <;> rfl

theorem runBuiltinTest (test : BuiltinTest) (h : v.Alike u.toPairing v')
    (hvs : List.Forall₂ (Value.Alike u.toPairing) vs vs') :
    Matches u Eq (Eval.runBuiltinTest test v vs) (Eval.runBuiltinTest test v' vs') := by
  unfold Eval.runBuiltinTest
  rcases hvs with _ | ⟨hw, hws⟩
  · rw [h.kind_eq, h.number?_eq, isFixed_eq _ h, isFixed_eq _ h]
    cases test with
    | odd =>
      refine (testInt _ h).bind ?_
      rintro i _ rfl
      exact .pure rfl
    | even =>
      refine (testInt _ h).bind ?_
      rintro i _ rfl
      exact .pure rfl
    | «false» => cases h <;> exact .pure rfl
    | «true» => cases h <;> exact .pure rfl
    | equal => exact .escape _
    | notEqual => exact .escape _
    | _ => exact .pure rfl
  rcases hws with _ | ⟨_, _⟩
  · cases test with
    | equal => exact equal h hw
    | notEqual =>
      refine (equal h hw).bind ?_
      rintro c _ rfl
      exact .pure rfl
    | _ => exact .escape _
  · cases test <;> exact .escape _

theorem runTest (host : Host) (name : String) (test : BuiltinTest) (h : v.Alike u.toPairing v')
    (hvs : List.Forall₂ (Value.Alike u.toPairing) vs vs') :
    Matches u Eq (Eval.runTest host name (.builtin test) v vs)
      (Eval.runTest host name (.builtin test) v' vs') := by
  unfold Eval.runTest
  simp only [hvs.length_eq]
  split
  · exact .fail _
  · exact runBuiltinTest test h hvs

/-- The scopes of a run know no tests but the built-in ones. -/
theorem findTest {s : Scope} (hs : u.Admits s) (name : Text) :
    Matches u (fun x y => x = y ∧ ∃ test, x.2 = .builtin test) (Eval.findTest s name)
      (Eval.findTest s name) := by
  unfold Eval.findTest
  refine get.bind fun st st' hst => ?_
  obtain ⟨htests, htests'⟩ := hst.tests s.inner hs.inner
  simp only [Store.test?, htests, htests', List.lookup_nil, Option.none_or]
  rcases name.toString? with _ | known
  · exact .fail _
  simp only [Option.bind_some, Option.map_map]
  rcases BuiltinTest.ofName? known with _ | test
  · exact .fail _
  · exact .pure ⟨rfl, test, rfl⟩

/-! ### Global and host functions -/

theorem rangeArgument (h : v.Alike u.toPairing v') :
    Matches u Eq (Eval.rangeArgument v) (Eval.rangeArgument v') := by
  cases h with
  | int i => exact .pure rfl
  | _ => exact .fail _

theorem callRange (h : a.Alike u.toPairing b) :
    Matches u (Value.Alike u.toPairing) (Eval.callRange a) (Eval.callRange b) := by
  have hints : ∀ is : List Int,
      (Value.array (is.map .int)).Alike u.toPairing (.array (is.map .int)) := by
    intro is
    refine .array ?_
    rw [List.forall₂_map_left_iff, List.forall₂_map_right_iff]
    exact List.forall₂_same.mpr fun i _ => .int i
  have hrange : ∀ start stop step : Int, Matches u (Value.Alike u.toPairing)
      (do
        if step == 0 then Eval.fail .rangeStep
        return .array ((Slice.progression start stop step).map .int))
      (do
        if step == 0 then Eval.fail .rangeStep
        return .array ((Slice.progression start stop step).map .int)) := by
    intro start stop step
    split
    · exact fail_bind _
    · exact .pure (hints _)
  unfold Eval.callRange
  simp only [h.count_eq, h.keywords.isEmpty_eq]
  split
  · exact fail_bind _
  refine (mapM h.positional fun _ _ => rangeArgument).bind ?_
  intro bounds bounds' hbounds
  rw [List.forall₂_eq_eq_eq] at hbounds
  subst hbounds
  split
  · exact fail_bind _
  split <;> exact hrange _ _ _

theorem callRaise (h : a.Alike u.toPairing b) :
    Matches u (Value.Alike u.toPairing) (Eval.callRaise a) (Eval.callRaise b) := by
  unfold Eval.callRaise
  refine (values h).bind fun vs vs' hvs => ?_
  cases hvs with
  | nil => exact .fail _
  | cons hv _ =>
    refine (textOf hv).bind ?_
    rintro t _ rfl
    exact .fail _

theorem callNamespace (h : a.Alike u.toPairing b) :
    Matches u (Value.Alike u.toPairing) (Eval.callNamespace a) (Eval.callNamespace b) := by
  unfold Eval.callNamespace
  rw [h.keywords.isEmpty_eq]
  have hpositional := h.positional
  have hslots := h.slots
  generalize a.positional = xs, b.positional = ys at hpositional ⊢
  rcases hpositional with _ | ⟨hx, hxs⟩
  · exact newObject hslots
  rcases hxs with _ | ⟨_, _⟩
  · cases hx with
    | object hrs =>
      dsimp only
      split
      · exact .pure (.object hrs)
      · exact .fail _
    | _ => exact .fail _
  · cases hx <;> exact .fail _

end Eval.Matches

/-- The host does the same whatever references are called. -/
def Host.Blind (host : Host) (p : Pairing) : Prop :=
  ∀ f as as' ks ks', List.Forall₂ (HostValue.Alike p) as as' →
    Slots.Related (HostValue.Alike p) ks ks' →
      SameOutcome (HostValue.Alike p) (host.call f as ks) (host.call f as' ks')

theorem Eval.Matches.keywordsToHost {s t : Slots String Value}
    (h : Slots.Related (Value.Alike u.toPairing) s t) :
    Matches u (Slots.Related (HostValue.Alike u.toPairing))
      (s.mapM fun (k, v) => return (k, ← Eval.toHost v))
      (t.mapM fun (k, v) => return (k, ← Eval.toHost v)) := by
  refine mapM h ?_
  rintro ⟨k, v⟩ ⟨k', v'⟩ ⟨rfl, hv⟩
  exact (toHost hv).bind fun _ _ hh => .pure ⟨rfl, hh⟩

theorem Eval.Matches.callHost {host : Host} (hhost : host.Blind u.toPairing) (f : HostFunction)
    {a b : Args} (h : a.Alike u.toPairing b) :
    Matches u (Value.Alike u.toPairing) (Eval.callHost host f a) (Eval.callHost host f b) := by
  unfold Eval.callHost
  refine (mapM h.positional fun _ _ => toHost).bind fun as as' has => ?_
  refine (keywordsToHost h.keywords).bind fun ks ks' hks => ?_
  rcases (hhost f as as' ks ks' has hks).answers with ⟨e, hx, hy⟩ | ⟨x, y, hx, hy, hxy⟩
  · rw [hx, hy]
    exact .throw e
  · rw [hx, hy]
    exact ofHost hxy

end ChatTemplate
