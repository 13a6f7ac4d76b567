import ChatTemplate.Eval.Filters
import ChatTemplate.Proofs.Eval.Primitives
import ChatTemplate.Proofs.Sorting.Errors
import ChatTemplate.Proofs.Sorting.Renaming

/-!
# What filters do and fail with

Each filter keeps to every lenient contract, as the operations do that it is made of.
-/

namespace ChatTemplate.Contract.Lenient
open Eval (Gives Meets Returns)
variable {α : Type} {c : Contract} {host : Host} (hc : c.Lenient host)
include hc

theorem expectWidth (n : Int) : Meets c (Eval.expectWidth n) := by
  unfold Eval.expectWidth
  split
  · rename_i h
    exact hc.escape (beyondSize_of_lt h)
  · exact .pure trivial

theorem written (text : Option Text) : Gives c
    (match text with
      | some s => Pure.pure (Value.string s)
      | none => Eval.fail (.noJson .function)) := by
  cases text with
  | none => exact hc.fail rfl
  | some s => exact .pure (hc.plain rfl)

theorem toJson (v : Value) (indent : Option Int) : Gives c (Eval.toJson v indent) := by
  unfold Eval.toJson
  refine (hc.datum v).bind fun d => ?_
  dsimp only
  split
  · exact hc.fail_bind rfl
  cases indent with
  | none => exact hc.written _
  | some n =>
    dsimp only
    split
    · exact (hc.expectWidth n).bind fun _ => hc.written _
    · exact hc.written _

theorem joined (sep : Text) (v : Value) : Gives c
    (match v with
      | .array items => do return Value.string (sep.intercalate (← items.mapM Eval.textOf))
      | .string s => return Value.string (sep.intercalate (s.toList.map fun c => .ofList [c]))
      | v => Eval.fail (.unknownFilter "join" (some v.kind))) := by
  cases v with
  | array items => exact (Meets.mapM fun v _ => hc.textOf v).bind fun _ => .pure (hc.plain rfl)
  | string s => exact .pure (hc.plain rfl)
  | _ => exact hc.fail rfl

section
variable {a : Args} (ha : a.Allowed c)
include ha

theorem toJsonFilter (v : Value) : Gives c (Eval.toJsonFilter v a) := by
  unfold Eval.toJsonFilter
  refine (hc.pick ha _ _).bind fun picked _ => ?_
  split
  · exact hc.toJson v none
  · exact hc.toJson v none
  · exact hc.toJson v none
  · exact hc.toJson v (some _)
  · exact hc.fail rfl

theorem joinFilter (v : Value) : Gives c (Eval.joinFilter v a) := by
  unfold Eval.joinFilter
  refine (hc.pick ha _ _).bind fun picked _ => ?_
  cases picked.lookup "d" with
  | none => exact hc.joined _ v
  | some w => exact (hc.textOf w).bind fun sep => hc.joined sep v

theorem intFilter (v : Value) : Gives c (Eval.intFilter v a) := by
  unfold Eval.intFilter
  refine (hc.pick ha _ _).bind fun picked hpicked => ?_
  have hfallback : c.value ((picked.lookup "default").getD (.int 0)) :=
    Slots.forall_lookup_getD hpicked "default" (hc.plain rfl)
  cases v with
  | int i => exact .pure (hc.plain rfl)
  | bool b => exact .pure (hc.plain rfl)
  | float f =>
    dsimp only
    split
    · exact .pure (hc.plain rfl)
    · exact hc.escape trivial
    · exact hc.escape trivial
  | string s =>
    refine .pure (holds_getD (fun w hw => ?_) hfallback)
    obtain ⟨i, -, rfl⟩ := Option.map_eq_some_iff.mp hw
    exact hc.plain rfl
  | _ => exact .pure hfallback

theorem floatFilter (v : Value) : Gives c (Eval.floatFilter v a) := by
  unfold Eval.floatFilter
  refine (hc.pick ha _ _).bind fun picked hpicked => ?_
  have hfallback : c.value ((picked.lookup "default").getD (.float 0)) :=
    Slots.forall_lookup_getD hpicked "default" (hc.plain rfl)
  cases v with
  | int i =>
    dsimp only
    split
    · exact .pure (hc.plain rfl)
    · rename_i h
      exact hc.escape h
  | float f => exact .pure (hc.plain rfl)
  | bool b => exact .pure (hc.plain rfl)
  | string s =>
    refine .pure (holds_getD (fun w hw => ?_) hfallback)
    obtain ⟨f, -, rfl⟩ := Option.map_eq_some_iff.mp hw
    exact hc.plain rfl
  | _ => exact .pure hfallback

theorem defaultFilter {v : Value} (hv : c.value v) : Gives c (Eval.defaultFilter v a) := by
  unfold Eval.defaultFilter
  refine (hc.pick ha _ _).bind fun picked hpicked => ?_
  have hfallback : c.value ((picked.lookup "default_value").getD (.string "")) :=
    Slots.forall_lookup_getD hpicked "default_value" (hc.plain rfl)
  dsimp only
  split
  · exact .pure hfallback
  · exact .pure hfallback
  refine (Meets.truthy _).bind fun falsy => (Meets.truthy v).bind fun b => ?_
  split
  · exact .pure hfallback
  · exact .pure hv

omit hc ha in
theorem less_fails (v w : Value) : Sorting.Fails (fun cause => cause.ordinary) (Eval.less v w) := by
  unfold Eval.less
  split
  · exact .ok
  split
  · exact .ok
  split_ifs <;> rintro _ ⟨⟩ <;> rfl

theorem sortFilter {items : List Value} (hitems : ∀ v ∈ items, c.value v) :
    Gives c (Eval.sortFilter items a) := by
  unfold Eval.sortFilter
  refine (hc.pick ha _ _).bind fun picked _ => ?_
  split
  · rename_i cause hsort
    exact hc.fail (Sorting.sort_fails less_fails items cause hsort)
  · rename_i sorted hsort
    refine (Meets.truthy _).bind fun reversed => .pure (hc.array_iff.mpr fun v hv => ?_)
    refine hitems v (Sorting.mem_of_sort hsort v ?_)
    cases reversed with
    | true => exact List.mem_reverse.mp hv
    | false => exact hv

omit ha in
theorem unique {kept items : List Value} (hkept : ∀ v ∈ kept, c.value v)
    (hitems : ∀ v ∈ items, c.value v) :
    Returns c (fun vs => ∀ v ∈ vs, c.value v) (Eval.unique kept items) := by
  induction items generalizing kept with
  | nil => exact .pure hkept
  | cons v vs ih =>
    obtain ⟨hv, hvs⟩ := List.forall_mem_cons.mp hitems
    unfold Eval.unique
    refine (hc.finite _).bind fun found => ?_
    split
    · exact ih hkept hvs
    · exact ih (List.forall_mem_append.mpr ⟨hkept, List.forall_mem_singleton.mpr hv⟩) hvs

omit hc ha in
theorem value_of_objectRefs {items : List Value} (hitems : ∀ v ∈ items, c.value v)
    {refs : List ObjectRef} (h : Eval.objectRefs? items = some refs) :
    ∀ r ∈ refs, c.value (.object r) := by
  induction items generalizing refs with
  | nil =>
    cases h
    exact nofun
  | cons v vs ih =>
    obtain ⟨hv, hvs⟩ := List.forall_mem_cons.mp hitems
    cases v with
    | object r =>
      obtain ⟨rest, hrest, rfl⟩ := Option.map_eq_some_iff.mp h
      exact List.forall_mem_cons.mpr ⟨hv, ih hvs hrest⟩
    | _ => cases h

theorem selectByAttribute (scope : Scope) (filter : String) (keep : Bool)
    {items : List Value} (hitems : ∀ v ∈ items, c.value v) :
    Gives c (Eval.selectByAttribute host scope filter keep items a) := by
  unfold Eval.selectByAttribute
  split
  · exact hc.fail rfl
  rename_i refs hrefs
  split
  · exact hc.fail rfl
  rename_i attr testName _
  have attributeOf (r : ObjectRef) :
      Meets c (do return ((← Eval.slotsOf r).lookup attr).getD .undefined) :=
    (hc.slotsOf r).bind fun _ _ => .pure trivial
  have answered (b : Bool) : Meets c (Pure.pure b) := Returns.pure trivial
  have hselected {selected : List ObjectRef} (h : ∀ r ∈ selected, r ∈ refs) :
      c.value (.array (selected.map .object)) :=
    hc.array_iff.mpr (List.forall_mem_map.mpr fun r hr => value_of_objectRefs hitems hrefs r (h r hr))
  cases testName with
  | none =>
    have hpasses (r : ObjectRef) := (attributeOf r).bind fun v => (Meets.truthy v).bind fun b =>
      answered (b == keep)
    exact (Returns.filterM hpasses refs).bind fun _ h => .pure (hselected h)
  | some name =>
    have hvalues : Meets c (Args.values { a with positional := a.positional.drop 2 }) :=
      hc.values ha.slots
    refine (hc.findTest scope name).bind fun found hfound => hvalues.bind fun args => ?_
    have hpasses (r : ObjectRef) := (attributeOf r).bind fun v =>
      (hc.runTest v args hfound).bind fun b => answered (b == keep)
    exact (Returns.filterM hpasses refs).bind fun _ h => .pure (hselected h)

theorem mapAttribute (attr : Value) (items : List Value) :
    Gives c (Eval.mapAttribute attr items a) := by
  unfold Eval.mapAttribute
  dsimp only
  split
  · exact hc.fail_bind rfl
  cases attr with
  | string name =>
    refine (Returns.mapM (S := c.value) fun v _ => ?_).bind fun vs hvs =>
      .pure (hc.array_iff.mpr hvs)
    cases v with
    | object r =>
      refine (hc.slotsOf r).bind fun slots hslots => .pure ?_
      exact Slots.forall_lookup_getD hslots name
        (Slots.forall_lookup_getD ha.keywords "default" (hc.plain rfl))
    | _ => exact hc.fail rfl
  | _ => exact hc.fail rfl

theorem indentFilter (s : Text) : Gives c (Eval.indentFilter s a) := by
  unfold Eval.indentFilter
  refine (hc.pick ha _ _).bind fun picked _ => ?_
  have hrest (indentation : List Codepoint) : Gives c (do
      let blank ← Eval.truthy ((picked.lookup "blank").getD (.bool false))
      let first ← Eval.truthy ((picked.lookup "first").getD (.bool false))
      return Value.ofPoints (Eval.indentLines indentation first blank s.toList)) :=
    (Meets.truthy _).bind fun _ => (Meets.truthy _).bind fun _ => .pure (hc.plain rfl)
  have hpure (cs : List Codepoint) : Meets c (Pure.pure cs) := Returns.pure trivial
  dsimp only
  split
  · exact (hpure _).bind hrest
  · exact (hc.expectWidth _).bind fun _ => (hpure _).bind hrest
  · exact (hpure _).bind hrest
  · exact hc.fail_bind rfl

/-! ### By name -/

theorem arrayFilter (scope : Scope) (name : Text) {items : List Value}
    (hitems : ∀ v ∈ items, c.value v) : Gives c (Eval.arrayFilter host scope name items a) := by
  unfold Eval.arrayFilter
  split
  case h_1 => exact .pure (hc.plain rfl)
  case h_2 => exact .pure (hc.array_iff.mpr hitems)
  case h_3 =>
    refine .pure (holds_getD (fun v hv => ?_) (hc.plain rfl))
    exact hitems v (List.mem_of_mem_head? hv)
  case h_4 =>
    refine .pure (holds_getD (fun v hv => ?_) (hc.plain rfl))
    exact hitems v (List.mem_of_getLast? hv)
  case h_5 => exact .pure (hc.array_iff.mpr fun v hv => hitems v (List.mem_reverse.mp hv))
  case h_6 => exact hc.sortFilter ha hitems
  case h_7 =>
    have hnil : ∀ v ∈ ([] : List Value), c.value v := nofun
    exact (hc.unique hnil hitems).bind fun vs hvs => .pure (hc.array_iff.mpr hvs)
  case h_8 => exact hc.selectByAttribute ha _ _ _ hitems
  case h_9 => exact hc.selectByAttribute ha _ _ _ hitems
  case h_10 => exact hc.fail rfl

theorem stringFilter (name : Text) (s : Text) : Gives c (Eval.stringFilter name s a) := by
  unfold Eval.stringFilter
  split
  case h_6 => exact hc.callStringMethod ha s _
  case h_7 => exact hc.callStringMethod ha s _
  case h_8 => exact hc.indentFilter ha s
  case h_9 => exact hc.fail rfl
  all_goals exact .pure (hc.plain rfl)

omit ha in
theorem objectFilter (name : Text) (r : ObjectRef) : Gives c (Eval.objectFilter name r) := by
  unfold Eval.objectFilter
  split
  · exact (hc.slotsOf r).bind fun _ _ => .pure (hc.plain rfl)
  · exact (hc.slotsOf r).bind fun _ h => .pure (hc.pairs h)
  · exact hc.fail rfl

theorem filterOfKind (scope : Scope) (name : Text) {v : Value} (hv : c.value v) :
    Gives c (Eval.filterOfKind host scope name v a) := by
  have hunknown : Gives c (Eval.filterOfKind.unknown name v) := hc.fail rfl
  have hunless (p : Prop) [Decidable p] {w : Value} (hw : c.value w) :
      Gives c (if p then Pure.pure w else Eval.filterOfKind.unknown name v) := by
    split
    · exact .pure hw
    · exact hunknown
  unfold Eval.filterOfKind
  cases v with
  | array items => exact hc.arrayFilter ha scope name (hc.array_iff.mp hv)
  | string s => exact hc.stringFilter ha name s
  | object r => exact hc.objectFilter name r
  | int i => exact hunless _ (hc.plain rfl)
  | float f => exact hunless _ (hc.plain rfl)
  | bool b => exact hunless _ (hc.plain rfl)
  | _ => exact hunknown

theorem plainFilter (scope : Scope) (name : Text) {v : Value} (hv : c.value v) :
    Gives c (Eval.plainFilter host scope name v a) := by
  unfold Eval.plainFilter
  split
  · exact hc.toJsonFilter ha v
  · exact hc.joinFilter ha v
  · exact hc.intFilter ha v
  · exact hc.floatFilter ha v
  · exact (hc.textOf v).bind fun _ => .pure (hc.plain rfl)
  · exact hc.defaultFilter ha hv
  · exact hc.filterOfKind ha scope name hv

end

theorem applyFilter (scope : Scope) {keywords : Slots String Value} (name : Text)
    {positional : List Value} (ha : Args.Allowed c ⟨positional, keywords⟩) {v : Value}
    (hv : c.value v) : Gives c (Eval.applyFilter host scope keywords name positional v) := by
  induction positional generalizing name v with
  | nil =>
    unfold Eval.applyFilter
    split
    · split
      · exact hc.mapAttribute ha _ _
      · exact hc.fail rfl
    · exact hc.plainFilter ha scope name hv
  | cons p ps ih =>
    have hps : Args.Allowed c ⟨ps, keywords⟩ :=
      ⟨(List.forall_mem_cons.mp ha.positional).2, ha.keywords, ha.slots⟩
    unfold Eval.applyFilter
    split
    · split
      · exact hc.mapAttribute ha _ _
      · cases p with
        | string inner =>
          refine (Returns.mapM fun w hw => ih inner hps (hc.array_iff.mp hv w hw)).bind ?_
          exact fun ws hws => .pure (hc.array_iff.mpr hws)
        | _ => exact hc.fail rfl
    · exact hc.plainFilter ha scope name hv

end ChatTemplate.Contract.Lenient
