import ChatTemplate.Eval.Filters
import ChatTemplate.Proofs.Eval.Blindness
import ChatTemplate.Proofs.Sorting.Renaming

/-!
# Filters that are blind to references

The filters do not tell operands or arguments apart that are alike. Sorting asks only how values
compare, so that it puts lists of values that are alike in the same order.
-/

namespace ChatTemplate
namespace Eval.Matches
variable {u : View} {a b : Args} {v v' w w' : Value} {vs vs' : List Value}

/-! ### Filters of any operand -/

theorem expectWidth (n : Int) : Matches u Eq (Eval.expectWidth n) (Eval.expectWidth n) := by
  unfold Eval.expectWidth
  split
  · exact .escape _
  · exact .pure rfl

theorem written (text : Option Text) :
    Matches u (Value.Alike u.toPairing)
      (match text with
        | some s => Pure.pure (.string s)
        | none => Eval.fail (.noJson .function))
      (match text with
        | some s => Pure.pure (.string s)
        | none => Eval.fail (.noJson .function)) := by
  cases text with
  | none => exact .fail _
  | some s => exact .pure (.string s)

theorem toJson (h : v.Alike u.toPairing v') (indent : Option Int) :
    Matches u (Value.Alike u.toPairing) (Eval.toJson v indent) (Eval.toJson v' indent) := by
  unfold Eval.toJson
  refine (datum h).bind fun d d' hd => ?_
  simp only [hd.hasFunction_eq, hd.json?_eq, h.kind_eq]
  split
  · exact fail_bind _
  cases indent with
  | none => exact written _
  | some n =>
    dsimp only
    split
    · exact (expectWidth n).bind fun _ _ _ => written _
    · exact written _

theorem toJsonFilter (h : v.Alike u.toPairing v') (ha : a.Alike u.toPairing b) :
    Matches u (Value.Alike u.toPairing) (Eval.toJsonFilter v a) (Eval.toJsonFilter v' b) := by
  unfold Eval.toJsonFilter
  refine (pick ha _ _).bind fun picked picked' hpicked => ?_
  rcases optionRel_cases (hpicked.lookup "indent") with ⟨hx, hy⟩ | ⟨w, w', hx, hy, hw⟩
  · rw [hx, hy]
    exact toJson h none
  rw [hx, hy]
  cases hw with
  | null => exact toJson h none
  | undefined => exact toJson h none
  | int n => exact toJson h (some n)
  | _ => exact .fail _

theorem texts (h : List.Forall₂ (Value.Alike u.toPairing) vs vs') :
    Matches u Eq (vs.mapM Eval.textOf) (vs'.mapM Eval.textOf) := by
  have htexts := mapM h fun _ _ => textOf
  rwa [List.forall₂_eq_eq_eq] at htexts

theorem joined (sep : Text) : v.Alike u.toPairing v' →
    Matches u (Value.Alike u.toPairing)
      (match v with
        | .array items => do return .string (sep.intercalate (← items.mapM Eval.textOf))
        | .string s => return .string (sep.intercalate (s.toList.map fun c => .ofList [c]))
        | v => Eval.fail (.unknownFilter "join" (some v.kind)))
      (match v' with
        | .array items => do return .string (sep.intercalate (← items.mapM Eval.textOf))
        | .string s => return .string (sep.intercalate (s.toList.map fun c => .ofList [c]))
        | v => Eval.fail (.unknownFilter "join" (some v.kind))) := by
  intro h
  cases h with
  | array hvs =>
    refine (texts hvs).bind ?_
    rintro ts _ rfl
    exact .pure (.string _)
  | string s => exact .pure (.string _)
  | _ => exact .fail _

theorem joinFilter (h : v.Alike u.toPairing v') (ha : a.Alike u.toPairing b) :
    Matches u (Value.Alike u.toPairing) (Eval.joinFilter v a) (Eval.joinFilter v' b) := by
  unfold Eval.joinFilter
  refine (pick ha _ _).bind fun picked picked' hpicked => ?_
  rcases optionRel_cases (hpicked.lookup "d") with ⟨hx, hy⟩ | ⟨w, w', hx, hy, hw⟩
  · rw [hx, hy]
    exact joined _ h
  rw [hx, hy]
  refine (textOf hw).bind ?_
  rintro sep _ rfl
  exact joined sep h

theorem intFilter (h : v.Alike u.toPairing v') (ha : a.Alike u.toPairing b) :
    Matches u (Value.Alike u.toPairing) (Eval.intFilter v a) (Eval.intFilter v' b) := by
  unfold Eval.intFilter
  refine (pick ha _ _).bind fun picked picked' hpicked => ?_
  have hfallback := Value.Alike.getD (hpicked.lookup "default") (.int 0)
  cases h with
  | int i => exact .pure (.int i)
  | float f =>
    dsimp only
    cases Double.ofFloat f with
    | finite s m e => exact .pure (.int _)
    | infinite s => exact .escape _
    | nan => exact .escape _
  | bool c => exact .pure (.int _)
  | string s =>
    dsimp only
    cases readInteger? s with
    | none => exact .pure hfallback
    | some i => exact .pure (.int i)
  | _ => exact .pure hfallback

theorem floatFilter (h : v.Alike u.toPairing v') (ha : a.Alike u.toPairing b) :
    Matches u (Value.Alike u.toPairing) (Eval.floatFilter v a) (Eval.floatFilter v' b) := by
  unfold Eval.floatFilter
  refine (pick ha _ _).bind fun picked picked' hpicked => ?_
  have hfallback := Value.Alike.getD (hpicked.lookup "default") (.float 0)
  cases h with
  | int i =>
    dsimp only
    cases Double.ofInt? i with
    | none => exact .escape _
    | some f => exact .pure (.float f)
  | float f => exact .pure (.float f)
  | bool c => exact .pure (.float _)
  | string s =>
    dsimp only
    cases Number.readFloat? s.toList with
    | none => exact .pure hfallback
    | some f => exact .pure (.float f)
  | _ => exact .pure hfallback

theorem defaultFilter (h : v.Alike u.toPairing v') (ha : a.Alike u.toPairing b) :
    Matches u (Value.Alike u.toPairing) (Eval.defaultFilter v a) (Eval.defaultFilter v' b) := by
  unfold Eval.defaultFilter
  refine (pick ha _ _).bind fun picked picked' hpicked => ?_
  have hfallback := Value.Alike.getD (hpicked.lookup "default_value") (.string "")
  have hflag := Value.Alike.getD (hpicked.lookup "boolean") (.bool false)
  have hchoice : Matches u (Value.Alike u.toPairing)
      (do
        let falsy ← Eval.truthy ((picked.lookup "boolean").getD (.bool false))
        if falsy && !(← Eval.truthy v) then
          return (picked.lookup "default_value").getD (.string "")
        else return v)
      (do
        let falsy ← Eval.truthy ((picked'.lookup "boolean").getD (.bool false))
        if falsy && !(← Eval.truthy v') then
          return (picked'.lookup "default_value").getD (.string "")
        else return v') := by
    refine (truthy hflag).bind ?_
    rintro falsy _ rfl
    refine (truthy h).bind ?_
    rintro c _ rfl
    split
    · exact .pure hfallback
    · exact .pure h
  cases h with
  | undefined => exact .pure hfallback
  | null => exact .pure hfallback
  | _ => exact hchoice

/-! ### Filters of arrays -/

theorem less_eq {x x' y y' : Value} (hx : x.Alike u.toPairing x') (hy : y.Alike u.toPairing y') :
    Eval.less x y = Eval.less x' y' := by
  unfold Eval.less
  cases hx <;> cases hy <;> rfl

theorem sortFilter (hvs : List.Forall₂ (Value.Alike u.toPairing) vs vs')
    (h : a.Alike u.toPairing b) :
    Matches u (Value.Alike u.toPairing) (Eval.sortFilter vs a) (Eval.sortFilter vs' b) := by
  unfold Eval.sortFilter
  refine (pick h _ _).bind fun picked picked' hpicked => ?_
  rcases Sorting.sort_forall₂ (R := Value.Alike u.toPairing) Eval.less
      (fun _ _ _ _ hx hy => less_eq hx hy) hvs with
    ⟨e, hx, hy⟩ | ⟨sorted, sorted', hx, hy, hsorted⟩
  · rw [hx, hy]
    exact .fail _
  rw [hx, hy]
  refine (truthy (.getD (hpicked.lookup _) (.bool false))).bind ?_
  rintro reversed _ rfl
  cases reversed with
  | false => exact .pure (.array hsorted)
  | true => exact .pure (.array (List.rel_reverse hsorted))

theorem unique {kept kept' : List Value} (hkept : List.Forall₂ (Value.Alike u.toPairing) kept kept')
    (hvs : List.Forall₂ (Value.Alike u.toPairing) vs vs') :
    Matches u (List.Forall₂ (Value.Alike u.toPairing)) (Eval.unique kept vs)
      (Eval.unique kept' vs') := by
  induction hvs generalizing kept kept' with
  | nil => exact .pure hkept
  | cons hv _ ih =>
    unfold Eval.unique
    refine (holds? hkept hv).bind ?_
    rintro c _ rfl
    split
    · exact ih hkept
    · exact ih (List.rel_append hkept (.cons hv .nil))

theorem objectRefs?_alike (hvs : List.Forall₂ (Value.Alike u.toPairing) vs vs') :
    Option.Rel (List.Forall₂ u.objects) (Eval.objectRefs? vs) (Eval.objectRefs? vs') := by
  induction hvs with
  | nil => exact .some .nil
  | cons hv _ ih =>
    cases hv with
    | object hrs =>
      unfold Eval.objectRefs?
      rcases optionRel_cases ih with ⟨hx, hy⟩ | ⟨rs, rs', hx, hy, hall⟩
      · rw [hx, hy]
        exact .none
      · rw [hx, hy]
        exact .some (.cons hrs hall)
    | _ => exact .none

theorem attributeNames?_eq (h : a.Alike u.toPairing b) :
    Eval.attributeNames? a = Eval.attributeNames? b := by
  unfold Eval.attributeNames?
  rw [h.keywords.isEmpty_eq]
  have hpositional := h.positional
  generalize a.positional = xs, b.positional = ys at hpositional ⊢
  rcases hpositional with _ | ⟨hx, hxs⟩
  · rfl
  rcases hxs with _ | ⟨hy, _⟩
  · cases hx <;> rfl
  · cases hx with
    | string attr => cases hy <;> rfl
    | _ => rfl

theorem objects_alike {rs rs' : List ObjectRef} (h : List.Forall₂ u.objects rs rs') :
    (Value.array (rs.map .object)).Alike u.toPairing (.array (rs'.map .object)) := by
  refine .array ?_
  rw [List.forall₂_map_left_iff, List.forall₂_map_right_iff]
  exact h.imp fun _ _ hrs => .object hrs

theorem selectByAttribute (host : Host) {scope : Scope} (hs : u.Admits scope) (filter : String)
    (keep : Bool) (hvs : List.Forall₂ (Value.Alike u.toPairing) vs vs')
    (h : a.Alike u.toPairing b) :
    Matches u (Value.Alike u.toPairing) (Eval.selectByAttribute host scope filter keep vs a)
      (Eval.selectByAttribute host scope filter keep vs' b) := by
  unfold Eval.selectByAttribute
  rw [attributeNames?_eq h]
  rcases optionRel_cases (objectRefs?_alike hvs) with ⟨hx, hy⟩ | ⟨rs, rs', hx, hy, hrs⟩
  · rw [hx, hy]
    exact .fail _
  rw [hx, hy]
  dsimp only
  split
  · exact .fail _
  rename_i attr testName _
  have hattribute : ∀ r s, u.objects r s →
      Matches u (Value.Alike u.toPairing)
        (do return ((← Eval.slotsOf r).lookup attr).getD .undefined)
        (do return ((← Eval.slotsOf s).lookup attr).getD .undefined) :=
    fun r s hrs => (slotsOf hrs).bind fun _ _ hslots =>
      .pure (.getD (hslots.lookup attr) .undefined)
  cases testName with
  | none =>
    refine (filterM hrs fun r s hrs => ?_).bind fun _ _ hselected =>
      .pure (objects_alike hselected)
    refine (hattribute r s hrs).bind fun v v' hv => (truthy hv).bind ?_
    rintro c _ rfl
    exact .pure rfl
  | some name =>
    refine (findTest hs name).bind ?_
    rintro ⟨known, _⟩ _ ⟨rfl, test, rfl⟩
    have hrest : Args.Alike u.toPairing { a with positional := a.positional.drop 2 }
        { b with positional := b.positional.drop 2 } :=
      ⟨List.forall₂_drop 2 h.positional, h.keywords⟩
    refine (values hrest).bind fun args args' hargs => ?_
    refine (filterM hrs fun r s hrs => ?_).bind fun _ _ hselected =>
      .pure (objects_alike hselected)
    refine (hattribute r s hrs).bind fun v v' hv => (runTest host known test hv hargs).bind ?_
    rintro c _ rfl
    exact .pure rfl

theorem mapAttribute (hv : v.Alike u.toPairing v')
    (hvs : List.Forall₂ (Value.Alike u.toPairing) vs vs') (h : a.Alike u.toPairing b) :
    Matches u (Value.Alike u.toPairing) (Eval.mapAttribute v vs a)
      (Eval.mapAttribute v' vs' b) := by
  unfold Eval.mapAttribute
  rw [forall₂_isEmpty h.positional, h.keywords.names_eq]
  dsimp only
  split
  · exact fail_bind _
  cases hv with
  | string name =>
    refine (mapM hvs fun x x' hx => ?_).bind fun _ _ hmapped => .pure (.array hmapped)
    have hfallback := Value.Alike.getD (h.keywords.lookup "default") .undefined
    cases hx with
    | object hrs =>
      exact (slotsOf hrs).bind fun _ _ hslots => .pure (.getD (hslots.lookup name) hfallback)
    | _ => exact .fail _
  | _ => exact .fail _

/-! ### Filters of strings -/

theorem indentFilter (s : Text) (h : a.Alike u.toPairing b) :
    Matches u (Value.Alike u.toPairing) (Eval.indentFilter s a) (Eval.indentFilter s b) := by
  unfold Eval.indentFilter
  refine (pick h _ _).bind fun picked picked' hpicked => ?_
  have hrest : ∀ indentation indentation' : List Codepoint, indentation = indentation' →
      Matches u (Value.Alike u.toPairing)
        (do
          let blank ← Eval.truthy ((picked.lookup "blank").getD (.bool false))
          let first ← Eval.truthy ((picked.lookup "first").getD (.bool false))
          return .ofPoints (indentLines indentation first blank s.toList))
        (do
          let blank ← Eval.truthy ((picked'.lookup "blank").getD (.bool false))
          let first ← Eval.truthy ((picked'.lookup "first").getD (.bool false))
          return .ofPoints (indentLines indentation' first blank s.toList)) := by
    rintro indentation _ rfl
    refine (truthy (.getD (hpicked.lookup _) (.bool false))).bind ?_
    rintro blank _ rfl
    refine (truthy (.getD (hpicked.lookup _) (.bool false))).bind ?_
    rintro first _ rfl
    exact .pure (.ofPoints _)
  rcases optionRel_cases (hpicked.lookup "width") with ⟨hx, hy⟩ | ⟨w, w', hx, hy, hw⟩
  · rw [hx, hy]
    exact (pure rfl).bind hrest
  rw [hx, hy]
  cases hw with
  | int n => exact (expectWidth n).bind fun _ _ _ => (pure rfl).bind hrest
  | string t => exact (pure rfl).bind hrest
  | _ => exact fail_bind _

/-! ### Filters by name -/

section Filters
variable (host : Host) {scope : Scope}

theorem arrayFilter (hs : u.Admits scope) (name : Text)
    (hvs : List.Forall₂ (Value.Alike u.toPairing) vs vs') (h : a.Alike u.toPairing b) :
    Matches u (Value.Alike u.toPairing) (Eval.arrayFilter host scope name vs a)
      (Eval.arrayFilter host scope name vs' b) := by
  unfold Eval.arrayFilter
  rw [hvs.length_eq]
  split
  · exact .pure (.int _)
  · exact .pure (.array hvs)
  · exact .pure (.getD (forall₂_head? hvs) .undefined)
  · exact .pure (.getD (forall₂_getLast? hvs) .undefined)
  · exact .pure (.array (List.rel_reverse hvs))
  · exact sortFilter hvs h
  · exact (unique .nil hvs).bind fun _ _ hkept => .pure (.array hkept)
  · exact selectByAttribute host hs _ _ hvs h
  · exact selectByAttribute host hs _ _ hvs h
  · exact .fail _

theorem stringFilter (name s : Text) (h : a.Alike u.toPairing b) :
    Matches u (Value.Alike u.toPairing) (Eval.stringFilter name s a)
      (Eval.stringFilter name s b) := by
  unfold Eval.stringFilter
  split
  · exact .pure (.int _)
  · exact .pure (.ofPoints _)
  · exact .pure (.ofPoints _)
  · exact .pure (.ofPoints _)
  · exact .pure (.ofPoints _)
  · exact callStringMethod s .strip h
  · exact callStringMethod s .replace h
  · exact indentFilter s h
  · exact .fail _

theorem objectFilter (name : Text) {r s : ObjectRef} (hrs : u.objects r s) :
    Matches u (Value.Alike u.toPairing) (Eval.objectFilter name r)
      (Eval.objectFilter name s) := by
  unfold Eval.objectFilter
  split
  · refine (slotsOf hrs).bind fun _ _ hslots => ?_
    rw [hslots.length_eq]
    exact .pure (.int _)
  · exact (slotsOf hrs).bind fun _ _ hslots => .pure (pairs_alike hslots)
  · exact .fail _

theorem filterOfKind (hs : u.Admits scope) (name : Text) (hv : v.Alike u.toPairing v')
    (h : a.Alike u.toPairing b) :
    Matches u (Value.Alike u.toPairing) (Eval.filterOfKind host scope name v a)
      (Eval.filterOfKind host scope name v' b) := by
  unfold Eval.filterOfKind Eval.filterOfKind.unknown
  rw [hv.kind_eq]
  cases hv with
  | array hvs => exact arrayFilter host hs name hvs h
  | string s => exact stringFilter name s h
  | object hrs => exact objectFilter name hrs
  | int i =>
    dsimp only
    split
    · exact .pure (.int _)
    · exact .fail _
  | float f =>
    dsimp only
    split
    · exact .pure (.float _)
    · exact .fail _
  | bool c =>
    dsimp only
    split
    · exact .pure (.bool c)
    · exact .fail _
  | _ => exact .fail _

theorem plainFilter (hs : u.Admits scope) (name : Text) (hv : v.Alike u.toPairing v')
    (h : a.Alike u.toPairing b) :
    Matches u (Value.Alike u.toPairing) (Eval.plainFilter host scope name v a)
      (Eval.plainFilter host scope name v' b) := by
  unfold Eval.plainFilter
  split
  · exact toJsonFilter hv h
  · exact joinFilter hv h
  · exact intFilter hv h
  · exact floatFilter hv h
  · refine (textOf hv).bind ?_
    rintro t _ rfl
    exact .pure (.string t)
  · exact defaultFilter hv h
  · exact filterOfKind host hs name hv h

/-- A filter is blind if the filters are that a use of `map` hands over to. -/
theorem applyFilter_of_inner (hs : u.Admits scope) {keywords keywords' : Slots String Value}
    (hkeywords : Slots.Related (Value.Alike u.toPairing) keywords keywords') (name : Text)
    (hvs : List.Forall₂ (Value.Alike u.toPairing) vs vs') (hv : v.Alike u.toPairing v')
    (hinner : ∀ inner rest rest', vs = .string inner :: rest → vs' = .string inner :: rest' →
      ∀ w w', w.Alike u.toPairing w' →
        Matches u (Value.Alike u.toPairing) (Eval.applyFilter host scope keywords inner rest w)
          (Eval.applyFilter host scope keywords' inner rest' w')) :
    Matches u (Value.Alike u.toPairing) (Eval.applyFilter host scope keywords name vs v)
      (Eval.applyFilter host scope keywords' name vs' v') := by
  have hargs : Args.Alike u.toPairing ⟨vs, keywords⟩ ⟨vs', keywords'⟩ := ⟨hvs, hkeywords⟩
  have hplain := plainFilter host hs name hv hargs
  unfold Eval.applyFilter
  by_cases hmap : name.toString? = some "map"
  · rw [hmap]
    cases hv with
    | array hitems =>
      rcases optionRel_cases (hkeywords.lookup "attribute") with ⟨hx, hy⟩ | ⟨w, w', hx, hy, hw⟩
      · rw [hx, hy]
        cases hvs with
        | nil => exact .fail _
        | cons hp hps =>
          cases hp with
          | string inner =>
            exact (mapM hitems (hinner inner _ _ rfl rfl)).bind fun _ _ hmapped =>
              .pure (.array hmapped)
          | _ => exact .fail _
      · rw [hx, hy]
        exact mapAttribute hw hitems hargs
    | _ => exact hplain
  · split
    · exact absurd (by assumption) hmap
    · split
      · exact absurd (by assumption) hmap
      · exact hplain

theorem applyFilter (hs : u.Admits scope) {keywords keywords' : Slots String Value}
    (hkeywords : Slots.Related (Value.Alike u.toPairing) keywords keywords') (name : Text)
    (hvs : List.Forall₂ (Value.Alike u.toPairing) vs vs') (hv : v.Alike u.toPairing v') :
    Matches u (Value.Alike u.toPairing) (Eval.applyFilter host scope keywords name vs v)
      (Eval.applyFilter host scope keywords' name vs' v') := by
  induction hvs generalizing name v v' with
  | nil =>
    refine applyFilter_of_inner host hs hkeywords name .nil hv ?_
    intro _ _ _ h
    cases h
  | cons hp hps ih =>
    refine applyFilter_of_inner host hs hkeywords name (.cons hp hps) hv ?_
    rintro inner rest rest' h h' w w' hw
    obtain ⟨rfl, rfl⟩ := List.cons.inj h
    obtain ⟨rfl, rfl⟩ := List.cons.inj h'
    exact ih inner hw

end Filters

end Eval.Matches
end ChatTemplate
