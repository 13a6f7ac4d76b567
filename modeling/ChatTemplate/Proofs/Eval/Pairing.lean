import ChatTemplate.Datum.Json
import ChatTemplate.Datum.Text
import ChatTemplate.HostValue
import ChatTemplate.Slice
import Mathlib.Data.List.Forall2

/-!
# Values that are the same but for their references

Two stores may keep what is the same object at different places. A `Pairing` says which reference of
the one goes with which of the other, and `Value.Alike` that two values differ in paired references
only. What looks at values without following references does not tell such values apart.
-/

namespace ChatTemplate

/-- Which references of one store go with which of another; no reference goes with two. -/
structure Pairing where
  objects : ObjectRef → ObjectRef → Prop
  functions : FunctionRef → FunctionRef → Prop
  objects_unique : Relator.BiUnique objects
  functions_unique : Relator.BiUnique functions

/-- The values differ in paired references only. -/
inductive Value.Alike (p : Pairing) : Value → Value → Prop
  | undefined : Alike p .undefined .undefined
  | null : Alike p .null .null
  | bool (b : Bool) : Alike p (.bool b) (.bool b)
  | int (i : Int) : Alike p (.int i) (.int i)
  | float (f : Float) : Alike p (.float f) (.float f)
  | string (s : Text) : Alike p (.string s) (.string s)
  | array {vs ws : List Value} (h : List.Forall₂ (Alike p) vs ws) : Alike p (.array vs) (.array ws)
  | object {r s : ObjectRef} (h : p.objects r s) : Alike p (.object r) (.object s)
  | function {r s : FunctionRef} (h : p.functions r s) : Alike p (.function r) (.function s)

/-- The same names in the same order, with related values. -/
abbrev Slots.Related {κ α β : Type} (R : α → β → Prop) : Slots κ α → Slots κ β → Prop :=
  List.Forall₂ fun x y => x.1 = y.1 ∧ R x.2 y.2

variable {p : Pairing} {α β : Type} {R : α → β → Prop}

theorem optionRel_cases {x : Option α} {y : Option β} (h : Option.Rel R x y) :
    (x = none ∧ y = none) ∨ ∃ a b, x = some a ∧ y = some b ∧ R a b := by
  cases h with
  | none => exact .inl ⟨rfl, rfl⟩
  | some hab => exact .inr ⟨_, _, rfl, rfl, hab⟩

theorem optionRel_isSome {x : Option α} {y : Option β} (h : Option.Rel R x y) :
    x.isSome = y.isSome := by
  cases h <;> rfl

namespace Value.Alike
variable {v w : Value}

theorem kind_eq (h : v.Alike p w) : v.kind = w.kind := by
  cases h <;> rfl

theorem number?_eq (h : v.Alike p w) : v.number? = w.number? := by
  cases h <;> rfl

theorem ofNumber (n : Number) : (Value.ofNumber n).Alike p (.ofNumber n) := by
  cases n <;> constructor

theorem ofPoints (cs : List Codepoint) : (Value.ofPoints cs).Alike p (.ofPoints cs) := string _

theorem strings (ss : List Text) : List.Forall₂ (Alike p) (ss.map .string) (ss.map .string) := by
  rw [List.forall₂_map_left_iff, List.forall₂_map_right_iff]
  exact List.forall₂_same.mpr fun s _ => string s

theorem getD {x y : Option Value} {d e : Value} (h : Option.Rel (Alike p) x y) (hd : d.Alike p e) :
    (x.getD d).Alike p (y.getD e) := by
  cases h with
  | none => exact hd
  | some h => exact h

end Value.Alike

/-! ### Slots -/

namespace Slots.Related
variable {κ : Type} {s : Slots κ α} {t : Slots κ β}

theorem names_eq (h : Slots.Related R s t) : s.names = t.names := by
  induction h with
  | nil => rfl
  | cons hxy _ ih => exact congrArg₂ List.cons hxy.1 ih

theorem isEmpty_eq (h : Slots.Related R s t) : s.isEmpty = t.isEmpty := by
  cases h <;> rfl

theorem values (h : Slots.Related R s t) : List.Forall₂ R (s.map Prod.snd) (t.map Prod.snd) := by
  induction h with
  | nil => exact .nil
  | cons hxy _ ih => exact .cons hxy.2 ih

variable [DecidableEq κ]

theorem lookup (h : Slots.Related R s t) (name : κ) :
    Option.Rel R (s.lookup name) (t.lookup name) := by
  induction h with
  | nil => exact .none
  | @cons x y s t hxy _ ih =>
    obtain ⟨k, a⟩ := x
    obtain ⟨k', b⟩ := y
    obtain ⟨rfl, hab⟩ : k = k' ∧ R a b := hxy
    simp only [List.lookup_cons]
    cases name == k with
    | true => exact .some hab
    | false => exact ih

theorem put (h : Slots.Related R s t) (name : κ) {a : α} {b : β} (hab : R a b) :
    Slots.Related R (s.put name a) (t.put name b) := by
  induction h with
  | nil => exact .cons ⟨rfl, hab⟩ .nil
  | @cons x y s t hxy hst ih =>
    obtain ⟨k, c⟩ := x
    obtain ⟨k', d⟩ := y
    obtain ⟨rfl, hcd⟩ : k = k' ∧ R c d := hxy
    simp only [Slots.put]
    split
    · exact .cons ⟨rfl, hab⟩ hst
    · exact .cons ⟨rfl, hcd⟩ ih

theorem putAll {s' : List (κ × α)} {t' : List (κ × β)} (h : Slots.Related R s t)
    (h' : Slots.Related R s' t') : Slots.Related R (s.putAll s') (t.putAll t') := by
  induction h' generalizing s t with
  | nil => exact h
  | @cons x y s' t' hxy _ ih =>
    obtain ⟨k, a⟩ := x
    obtain ⟨k', b⟩ := y
    obtain ⟨rfl, hab⟩ : k = k' ∧ R a b := hxy
    exact ih (h.put k hab)

end Slots.Related

/-! ### Lists -/

section Lists
variable {xs : List α} {ys : List β}

theorem forall₂_getElem? (h : List.Forall₂ R xs ys) (i : Nat) :
    Option.Rel R xs[i]? ys[i]? := by
  induction h generalizing i with
  | nil => exact .none
  | cons hxy _ ih =>
    cases i with
    | zero => exact .some hxy
    | succ i => exact ih i

theorem forall₂_head? (h : List.Forall₂ R xs ys) : Option.Rel R xs.head? ys.head? := by
  cases h with
  | nil => exact .none
  | cons hxy _ => exact .some hxy

theorem forall₂_getLast? (h : List.Forall₂ R xs ys) : Option.Rel R xs.getLast? ys.getLast? := by
  rw [← List.head?_reverse, ← List.head?_reverse]
  exact forall₂_head? (List.rel_reverse h)

theorem forall₂_isEmpty (h : List.Forall₂ R xs ys) : xs.isEmpty = ys.isEmpty := by
  cases h <;> rfl

theorem forall₂_zip {γ : Type} (ks : List γ) (h : List.Forall₂ R xs ys) :
    Slots.Related R (ks.zip xs) (ks.zip ys) := by
  induction h generalizing ks with
  | nil => rw [List.zip_nil_right, List.zip_nil_right]; exact .nil
  | cons hxy _ ih =>
    cases ks with
    | nil => exact .nil
    | cons k ks => exact .cons ⟨rfl, hxy⟩ (ih ks)

theorem Slice.pick_forall₂ (h : List.Forall₂ R xs ys) (start stop : Option Int) (step : Int) :
    List.Forall₂ R (Slice.pick xs start stop step) (Slice.pick ys start stop step) := by
  unfold Slice.pick
  simp only [List.getElem?_toArray, List.size_toArray, h.length_eq]
  refine List.rel_filterMap ?_ (List.forall₂_eq_eq_eq ▸ rfl)
  rintro i _ rfl
  exact forall₂_getElem? h i.toNat

end Lists

/-! ### Values of the host -/

mutual

/-- The values differ in the paired references inside them only. -/
inductive HostValue.Alike (p : Pairing) : HostValue → HostValue → Prop
  | null : Alike p .null .null
  | bool (b : Bool) : Alike p (.bool b) (.bool b)
  | int (i : Int) : Alike p (.int i) (.int i)
  | float (f : Float) : Alike p (.float f) (.float f)
  | string (s : Text) : Alike p (.string s) (.string s)
  | list {hs hs' : List HostValue} (h : List.Forall₂ (Alike p) hs hs') :
      Alike p (.list hs) (.list hs')
  | tuple {hs hs' : List HostValue} (h : List.Forall₂ (Alike p) hs hs') :
      Alike p (.tuple hs) (.tuple hs')
  | map {es es' : List (HostKey × HostValue)} (h : AlikeEntries p es es') :
      Alike p (.map es) (.map es')
  | callable (f : HostFunction) : Alike p (.callable f) (.callable f)
  | foreign (typeName : String) : Alike p (.foreign typeName) (.foreign typeName)
  | value {v w : Value} (h : v.Alike p w) : Alike p (.value v) (.value w)

inductive HostValue.AlikeEntries (p : Pairing) :
    List (HostKey × HostValue) → List (HostKey × HostValue) → Prop
  | nil : AlikeEntries p [] []
  | cons (k : HostKey) {h h' : HostValue} {es es' : List (HostKey × HostValue)}
      (hh : HostValue.Alike p h h') (hes : AlikeEntries p es es') :
      AlikeEntries p ((k, h) :: es) ((k, h') :: es')

end

/-! ### More pairs -/

/-- The second pairing has all pairs of the first one. -/
structure Pairing.Le (p q : Pairing) : Prop where
  objects : ∀ r s, p.objects r s → q.objects r s
  functions : ∀ r s, p.functions r s → q.functions r s

mutual

theorem Value.Alike.mono {q : Pairing} (hpq : p.Le q) {v w : Value} (h : v.Alike p w) :
    v.Alike q w := by
  cases h with
  | undefined => exact .undefined
  | null => exact .null
  | bool b => exact .bool b
  | int i => exact .int i
  | float f => exact .float f
  | string s => exact .string s
  | array h => exact .array (forall₂_alike_mono hpq h)
  | object h => exact .object (hpq.objects _ _ h)
  | function h => exact .function (hpq.functions _ _ h)

theorem forall₂_alike_mono {q : Pairing} (hpq : p.Le q) {vs ws : List Value}
    (h : List.Forall₂ (Value.Alike p) vs ws) : List.Forall₂ (Value.Alike q) vs ws := by
  cases h with
  | nil => exact .nil
  | cons hv hvs => exact .cons (hv.mono hpq) (forall₂_alike_mono hpq hvs)

end

mutual

theorem HostValue.Alike.mono {q : Pairing} (hpq : p.Le q) {h h' : HostValue} (hh : h.Alike p h') :
    h.Alike q h' := by
  cases hh with
  | null => exact .null
  | bool b => exact .bool b
  | int i => exact .int i
  | float f => exact .float f
  | string s => exact .string s
  | list hs => exact .list (forall₂_hostAlike_mono hpq hs)
  | tuple hs => exact .tuple (forall₂_hostAlike_mono hpq hs)
  | map hes => exact .map (HostValue.AlikeEntries.mono hpq hes)
  | callable f => exact .callable f
  | foreign typeName => exact .foreign typeName
  | value hv => exact .value (hv.mono hpq)

theorem forall₂_hostAlike_mono {q : Pairing} (hpq : p.Le q) {hs hs' : List HostValue}
    (h : List.Forall₂ (HostValue.Alike p) hs hs') : List.Forall₂ (HostValue.Alike q) hs hs' := by
  cases h with
  | nil => exact .nil
  | cons hh hhs => exact .cons (hh.mono hpq) (forall₂_hostAlike_mono hpq hhs)

theorem HostValue.AlikeEntries.mono {q : Pairing} (hpq : p.Le q)
    {es es' : List (HostKey × HostValue)}
    (h : HostValue.AlikeEntries p es es') : HostValue.AlikeEntries q es es' := by
  cases h with
  | nil => exact .nil
  | cons k hh hes => exact .cons k (hh.mono hpq) (hes.mono hpq)

end

/-! ### Values spelled out -/

mutual

/-- The data differ in references to functions only, which go by one name. -/
inductive Datum.Alike (p : Pairing) : Datum → Datum → Prop
  | undefined : Alike p .undefined .undefined
  | null : Alike p .null .null
  | bool (b : Bool) : Alike p (.bool b) (.bool b)
  | int (i : Int) : Alike p (.int i) (.int i)
  | float (f : Float) : Alike p (.float f) (.float f)
  | string (s : Text) : Alike p (.string s) (.string s)
  | array {ds ds' : List Datum} (h : List.Forall₂ (Alike p) ds ds') :
      Alike p (.array ds) (.array ds')
  | object {es es' : List (Text × Datum)} (h : AlikeSlots p es es') :
      Alike p (.object es) (.object es')
  | function {r s : FunctionRef} (h : p.functions r s) (name : String) :
      Alike p (.function r name) (.function s name)

inductive Datum.AlikeSlots (p : Pairing) : List (Text × Datum) → List (Text × Datum) → Prop
  | nil : AlikeSlots p [] []
  | cons (k : Text) {d d' : Datum} {es es' : List (Text × Datum)}
      (hd : Datum.Alike p d d') (hes : AlikeSlots p es es') :
      AlikeSlots p ((k, d) :: es) ((k, d') :: es')

end

namespace Datum

theorem AlikeSlots.zip (ks : List Text) {ds ds' : List Datum}
    (h : List.Forall₂ (Datum.Alike p) ds ds') : AlikeSlots p (ks.zip ds) (ks.zip ds') := by
  induction h generalizing ks with
  | nil => rw [List.zip_nil_right]; exact .nil
  | cons hd _ ih =>
    cases ks with
    | nil => exact .nil
    | cons k ks => exact .cons k hd (ih ks)

mutual

theorem Alike.literal_eq {d d' : Datum} (h : d.Alike p d') : d.literal = d'.literal := by
  cases h with
  | array h => simp only [literal, literalItems_eq h]
  | object h => simp only [literal, AlikeSlots.literal_eq h]
  | _ => rfl

theorem literalItems_eq {ds ds' : List Datum} (h : List.Forall₂ (Datum.Alike p) ds ds') :
    literalItems ds = literalItems ds' := by
  cases h with
  | nil => rfl
  | cons hd hds => simp only [literalItems, hd.literal_eq, literalItems_eq hds]

theorem AlikeSlots.literal_eq {es es' : List (Text × Datum)} (h : AlikeSlots p es es') :
    literalSlots es = literalSlots es' := by
  cases h with
  | nil => rfl
  | cons k hd hes => simp only [literalSlots, literalSlot, hd.literal_eq, hes.literal_eq]

end

theorem Alike.text_eq {d d' : Datum} (h : d.Alike p d') : d.text = d'.text := by
  cases h with
  | array h => exact (Alike.array h).literal_eq
  | object h => exact (Alike.object h).literal_eq
  | _ => rfl

mutual

theorem Alike.hasFunction_eq {d d' : Datum} (h : d.Alike p d') :
    d.hasFunction = d'.hasFunction := by
  cases h with
  | array h => simp only [hasFunction, anyHasFunction_eq h]
  | object h => simp only [hasFunction, AlikeSlots.hasFunction_eq h]
  | _ => rfl

theorem anyHasFunction_eq {ds ds' : List Datum} (h : List.Forall₂ (Datum.Alike p) ds ds') :
    anyHasFunction ds = anyHasFunction ds' := by
  cases h with
  | nil => rfl
  | cons hd hds => simp only [anyHasFunction, hd.hasFunction_eq, anyHasFunction_eq hds]

theorem AlikeSlots.hasFunction_eq {es es' : List (Text × Datum)} (h : AlikeSlots p es es') :
    anySlotHasFunction es = anySlotHasFunction es' := by
  cases h with
  | nil => rfl
  | cons k hd hes =>
    simp only [anySlotHasFunction, slotHasFunction, hd.hasFunction_eq, hes.hasFunction_eq]

end

mutual

theorem Alike.json_eq (unit : Option (List Codepoint)) (level : Nat) {d d' : Datum}
    (h : d.Alike p d') : d.json unit level = d'.json unit level := by
  cases h with
  | array h => simp only [json, jsonItems_eq unit (level + 1) h]
  | object h => simp only [json, AlikeSlots.json_eq unit (level + 1) h]
  | _ => rfl

theorem jsonItems_eq (unit : Option (List Codepoint)) (level : Nat) {ds ds' : List Datum}
    (h : List.Forall₂ (Datum.Alike p) ds ds') :
    jsonItems unit level ds = jsonItems unit level ds' := by
  cases h with
  | nil => rfl
  | cons hd hds => simp only [jsonItems, hd.json_eq unit level, jsonItems_eq unit level hds]

theorem AlikeSlots.json_eq (unit : Option (List Codepoint)) (level : Nat)
    {es es' : List (Text × Datum)} (h : AlikeSlots p es es') :
    jsonSlots unit level es = jsonSlots unit level es' := by
  cases h with
  | nil => rfl
  | cons k hd hes => simp only [jsonSlots, jsonSlot, hd.json_eq unit level, hes.json_eq unit level]

end

theorem Alike.json?_eq {d d' : Datum} (h : d.Alike p d') (indent : Option Int) :
    d.json? indent = d'.json? indent := by
  unfold json?
  rw [h.hasFunction_eq, h.json_eq]

mutual

theorem Alike.toHost {d d' : Datum} (h : d.Alike p d') : d.toHost.Alike p d'.toHost := by
  cases h with
  | undefined => exact .null
  | null => exact .null
  | bool b => exact .bool b
  | int i => exact .int i
  | float f => exact .float f
  | string s => exact .string s
  | array h => exact .list (toHostItems_alike h)
  | object h => exact .map (AlikeSlots.toHost h)
  | function h name => exact .value (.function h)

theorem toHostItems_alike {ds ds' : List Datum} (h : List.Forall₂ (Datum.Alike p) ds ds') :
    List.Forall₂ (HostValue.Alike p) (toHostItems ds) (toHostItems ds') := by
  cases h with
  | nil => exact .nil
  | cons hd hds => exact .cons hd.toHost (toHostItems_alike hds)

theorem AlikeSlots.toHost {es es' : List (Text × Datum)} (h : AlikeSlots p es es') :
    HostValue.AlikeEntries p (toHostSlots es) (toHostSlots es') := by
  cases h with
  | nil => exact .nil
  | cons k hd hes => exact .cons (.string k) hd.toHost (AlikeSlots.toHost hes)

end

end Datum
end ChatTemplate
