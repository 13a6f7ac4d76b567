import ChatTemplate.Proofs.Number.Amount
import ChatTemplate.Proofs.Store.Answers
import ChatTemplate.Proofs.Store.Saturation

/-!
# Equality as a relation

`Store.Equal` says what it takes for two values to be equal. It holds where comparing them answers
true (`Store.equal?_eq_some_true`), so that the laws of equality are proved by induction on why two
values are equal. Values that are nested to some depth, without a `nan` in them (`Store.NanFree`), are
equal to themselves, and comparing them with others ends.
-/

namespace ChatTemplate

namespace Store

/-- No object has two slots of one name. Assignments and new objects with slots that were put together
name by name keep it so, and with them all evaluations. -/
def Dictionaries (st : Store) : Prop := ∀ r, (st.slots r).names.Nodup

theorem dictionaries_initial : initial.Dictionaries := by
  intro r
  rw [slots_of_size_le (Nat.zero_le r)]
  exact List.nodup_nil

namespace Dictionaries
variable {st : Store} (hst : st.Dictionaries)
include hst

theorem pushObject {slots : Slots Text Value} (hslots : slots.names.Nodup) :
    (st.pushObject slots).Dictionaries := by
  intro r
  unfold Store.slots Store.pushObject
  rw [Array.getElem?_push]
  split_ifs
  · exact hslots
  · exact hst r

theorem putSlot (r : ObjectRef) (name : Text) (v : Value) :
    (st.putSlot r name v).Dictionaries := by
  intro s
  rw [slots_putSlot_eq]
  split_ifs
  · exact Slots.nodup_names_put (hst s) name v
  · exact hst s

theorem mem_slots_iff {r : ObjectRef} {name : Text} {v : Value} :
    (name, v) ∈ st.slots r ↔ (st.slots r).lookup name = some v :=
  ⟨Slots.lookup_of_mem (hst r), mem_of_lookup⟩

end Dictionaries

/-! ### The relation -/

/-- The values are equal: numbers and truth values by their amounts, arrays position by position, and
objects of the same names name by name. -/
inductive Equal (st : Store) : Value → Value → Prop
  | undefined : Equal st .undefined .undefined
  | null : Equal st .null .null
  | string (s : Text) : Equal st (.string s) (.string s)
  | function (r : FunctionRef) : Equal st (.function r) (.function r)
  | amount {v w : Value} {a b : Double} (hv : v.amount? = some a) (hw : w.amount? = some b)
      (h : a.compare? b = some .eq) : Equal st v w
  | array {as bs : List Value} (hlength : as.length = bs.length)
      (h : ∀ (i : Nat) v w, as[i]? = some v → bs[i]? = some w → Equal st v w) :
      Equal st (.array as) (.array bs)
  | object {r s : ObjectRef} (hnames : (st.slots r).names.Perm (st.slots s).names)
      (h : ∀ name v w, (st.slots r).lookup name = some v → (st.slots s).lookup name = some w →
        Equal st v w) : Equal st (.object r) (.object s)

/-- The value is nested to some depth, and none of the numbers in it is `nan`. -/
inductive NanFree (st : Store) : Value → Prop
  | undefined : NanFree st .undefined
  | null : NanFree st .null
  | bool (b : Bool) : NanFree st (.bool b)
  | int (i : Int) : NanFree st (.int i)
  | float {f : Float} (h : Double.ofFloat f ≠ .nan) : NanFree st (.float f)
  | string (s : Text) : NanFree st (.string s)
  | function (r : FunctionRef) : NanFree st (.function r)
  | array {items : List Value} (h : ∀ v ∈ items, NanFree st v) : NanFree st (.array items)
  | object {r : ObjectRef} (h : ∀ e ∈ st.slots r, NanFree st e.2) : NanFree st (.object r)

variable {st : Store} {u v w : Value}

namespace Equal

theorem of_amount {a : Double} (hv : v.amount? = some a) (ha : a ≠ .nan) : st.Equal v v :=
  .amount hv hv (Double.compare?_eq_some_eq.mpr ⟨ha, ha, rfl⟩)

theorem symm (h : st.Equal v w) : st.Equal w v := by
  induction h with
  | undefined => exact .undefined
  | null => exact .null
  | string s => exact .string s
  | function r => exact .function r
  | amount hv hw h =>
    obtain ⟨ha, hb, heq⟩ := Double.compare?_eq_some_eq.mp h
    exact .amount hw hv (Double.compare?_eq_some_eq.mpr ⟨hb, ha, heq.symm⟩)
  | array hlength _ ih => exact .array hlength.symm fun i w v hw hv => ih i v w hv hw
  | object hnames _ ih => exact .object hnames.symm fun name w v hw hv => ih name v w hv hw

theorem trans (huv : st.Equal u v) (hvw : st.Equal v w) : st.Equal u w := by
  induction huv generalizing w with
  | undefined => exact hvw
  | null => exact hvw
  | string s => exact hvw
  | function r => exact hvw
  | amount hu hv h =>
    cases hvw with
    | amount hv' hw h' =>
      cases hv.symm.trans hv'
      obtain ⟨ha, -, heq⟩ := Double.compare?_eq_some_eq.mp h
      obtain ⟨-, hb, heq'⟩ := Double.compare?_eq_some_eq.mp h'
      exact .amount hu hw (Double.compare?_eq_some_eq.mpr ⟨ha, hb, heq.trans heq'⟩)
    | _ => cases hv
  | @array as bs hlength _ ih =>
    cases hvw with
    | amount hv => cases hv
    | array hlength' h' =>
      refine .array (hlength.trans hlength') fun i v w hv hw => ?_
      have hlt : i < bs.length := hlength ▸ (List.getElem?_eq_some_iff.mp hv).1
      have hmiddle := List.getElem?_eq_getElem hlt
      exact ih i v _ hv hmiddle (h' i _ w hmiddle hw)
  | @object r s hnames _ ih =>
    cases hvw with
    | amount hv => cases hv
    | object hnames' h' =>
      refine .object (hnames.trans hnames') fun name v w hv hw => ?_
      have hmem : name ∈ (st.slots s).names :=
        hnames.mem_iff.mp (List.mem_map_of_mem (f := Prod.fst) (mem_of_lookup hv))
      obtain ⟨x, hx⟩ := Slots.exists_lookup_of_mem_names hmem
      exact ih name v x hv hx (h' name x w hx hw)

theorem nanFree (hst : st.Dictionaries) (h : st.Equal v w) : st.NanFree v := by
  induction h with
  | undefined => exact .undefined
  | null => exact .null
  | string s => exact .string s
  | function r => exact .function r
  | @amount v w a b hv hw h =>
    have ha := (Double.compare?_eq_some_eq.mp h).1
    cases v with
    | bool b => exact .bool b
    | int i => exact .int i
    | float f =>
      cases hv
      exact .float ha
    | _ => cases hv
  | @array as bs hlength _ ih =>
    refine .array fun v hv => ?_
    obtain ⟨i, hi, rfl⟩ := List.mem_iff_getElem.mp hv
    exact ih i _ _ (List.getElem?_eq_getElem hi) (List.getElem?_eq_getElem (hlength ▸ hi))
  | @object r s hnames _ ih =>
    refine .object fun e he => ?_
    have hmem : e.1 ∈ (st.slots s).names := hnames.mem_iff.mp (List.mem_map_of_mem he)
    obtain ⟨x, hx⟩ := Slots.exists_lookup_of_mem_names hmem
    exact ih e.1 e.2 x (hst.mem_slots_iff.mp he) hx

end Equal

theorem NanFree.equal_self (h : st.NanFree v) : st.Equal v v := by
  induction h with
  | undefined => exact .undefined
  | null => exact .null
  | bool b => exact .of_amount rfl (by cases b <;> decide)
  | int i => exact .of_amount rfl nofun
  | float h => exact .of_amount rfl h
  | string s => exact .string s
  | function r => exact .function r
  | array _ ih =>
    refine .array rfl fun i v w hv hw => ?_
    cases hv.symm.trans hw
    exact ih v (List.mem_of_getElem? hv)
  | object _ ih =>
    refine .object (.refl _) fun name v w hv hw => ?_
    cases hv.symm.trans hw
    exact ih (name, v) (mem_of_lookup hv)

/-! ### Comparing -/

theorem allPass_eq_some_true {α : Type} {p : α → Option Bool} {xs : List α} :
    allPass p xs = some true ↔ ∀ x ∈ xs, p x = some true := by
  induction xs with
  | nil => simp [allPass]
  | cons x xs ih =>
    rw [allPass, List.forall_mem_cons, ← ih]
    split
    case h_1 hx => simp only [hx, true_and]
    case h_2 hx => exact ⟨fun h => (hx h).elim, fun h => (hx h.1).elim⟩

theorem equalItems_eq_some_true {f : ObjectRef → ObjectRef → Option Bool} {as bs : List Value}
    (hlength : as.length = bs.length) : equalItems f as bs = some true ↔
      ∀ (i : Nat) v w, as[i]? = some v → bs[i]? = some w → equalWith f v w = some true := by
  induction as generalizing bs with
  | nil =>
    cases bs with
    | nil => simp [equalItems]
    | cons b bs => cases hlength
  | cons a as ih =>
    cases bs with
    | nil => cases hlength
    | cons b bs =>
      rw [equalItems]
      split
      case h_1 hab =>
        rw [ih (Nat.succ.inj hlength)]
        constructor
        · rintro h (_ | i) v w hv hw
          · cases hv
            cases hw
            exact hab
          · exact h i v w hv hw
        · exact fun h i => h (i + 1)
      case h_2 hab => exact ⟨fun h => (hab h).elim, fun h => (hab (h 0 a b rfl rfl)).elim⟩

/-- With enough pairs of objects one inside the other, comparing objects is comparing what they hold. -/
theorem equal?_object (st : Store) (r s : ObjectRef) :
    st.equal? (.object r) (.object s) =
      if sameNames (st.slots r) (st.slots s) then
        allPass (fun e => st.equal? e.2 (((st.slots s).lookup e.1).getD .undefined)) (st.slots r)
      else some false := by
  show st.equalObjects (st.objects.size * st.objects.size + 1) r s = _
  rw [← equalObjects_eq_of_le st (Nat.le_succ _)]
  rfl

theorem sameNames_iff_perm {a b : Slots Text Value} (ha : a.names.Nodup) :
    sameNames a b ↔ a.names.Perm b.names := by
  have hlength (s : Slots Text Value) : s.length = s.names.length := by rw [Slots.names, List.length_map]
  have hmem : (∀ e ∈ a, (b.lookup e.1).isSome) ↔ a.names ⊆ b.names := by
    simp only [Option.isSome_iff_ne_none, ne_eq, Slots.lookup_eq_none, not_not]
    exact List.forall_mem_map.symm
  simp only [sameNames, Bool.and_eq_true, beq_iff_eq, List.all_eq_true, hmem, hlength]
  constructor
  · rintro ⟨hlen, hsub⟩
    exact (List.subperm_of_subset ha hsub).perm_of_length_le hlen.ge
  · exact fun h => ⟨h.length_eq, h.subset⟩

section Answers
variable {f : ObjectRef → ObjectRef → Option Bool}

theorem equalWith_of_amount {a b : Double} (hv : v.amount? = some a) (hw : w.amount? = some b) :
    equalWith f v w = some (a.compare? b == some .eq) := by
  cases v <;> cases hv <;> cases w <;> cases hw <;> rfl

theorem equalWith_of_amount_of_none {a : Double} (hv : v.amount? = some a) (hw : w.amount? = none) :
    equalWith f v w = some false := by
  cases v <;> cases hv <;> cases w <;> cases hw <;> rfl

theorem equal_of_equalWith_of_amount {a : Double} (hv : v.amount? = some a)
    (h : equalWith f v w = some true) : st.Equal v w := by
  cases hw : w.amount? with
  | none => cases (equalWith_of_amount_of_none hv hw).symm.trans h
  | some b =>
    rw [equalWith_of_amount hv hw, Option.some_inj, beq_iff_eq] at h
    exact .amount hv hw h

variable (hf : ∀ r s, f r s = some true → st.Equal (.object r) (.object s))
include hf

theorem equal_of_equalWith (v w : Value) (h : equalWith f v w = some true) : st.Equal v w := by
  cases v with
  | undefined =>
    cases w with
    | undefined => exact .undefined
    | _ => cases h
  | null =>
    cases w with
    | null => exact .null
    | _ => cases h
  | bool b => exact equal_of_equalWith_of_amount rfl h
  | int i => exact equal_of_equalWith_of_amount rfl h
  | float f => exact equal_of_equalWith_of_amount rfl h
  | string s =>
    cases w with
    | string t =>
      cases eq_of_beq (Option.some.inj h)
      exact .string s
    | _ => cases h
  | array as =>
    cases w with
    | array bs =>
      rw [equalWith] at h
      by_cases hlength : as.length = bs.length
      · rw [if_pos (beq_iff_eq.mpr hlength)] at h
        have hitems := (equalItems_eq_some_true hlength).mp h
        refine .array hlength fun i v w hv hw => ?_
        have := List.sizeOf_lt_of_mem (List.mem_of_getElem? hv)
        exact equal_of_equalWith v w (hitems i v w hv hw)
      · rw [if_neg (mt eq_of_beq hlength)] at h
        cases h
    | _ => cases h
  | object r =>
    cases w with
    | object s => exact hf r s h
    | _ => cases h
  | function r =>
    cases w with
    | function s =>
      cases eq_of_beq (Option.some.inj h)
      exact .function r
    | _ => cases h
termination_by sizeOf v
decreasing_by
  subst_vars
  rw [Value.array.sizeOf_spec]
  omega

end Answers

theorem equal_of_equalObjects (hst : st.Dictionaries) (n : Nat) (r s : ObjectRef)
    (h : st.equalObjects n r s = some true) : st.Equal (.object r) (.object s) := by
  induction n generalizing r s with
  | zero => cases h
  | succ n ih =>
    rw [equalObjects] at h
    split at h
    case isFalse => cases h
    rename_i hnames
    refine .object ((sameNames_iff_perm (hst r)).mp hnames) fun name v w hv hw => ?_
    have hpass := allPass_eq_some_true.mp h (name, v) (mem_of_lookup hv)
    dsimp only at hpass
    rw [hw] at hpass
    exact equal_of_equalWith ih v w hpass

/-- Two values are equal if and only if comparing them answers so. -/
theorem equal?_eq_some_true (hst : st.Dictionaries) :
    st.equal? v w = some true ↔ st.Equal v w := by
  constructor
  · exact equal_of_equalWith (equal_of_equalObjects hst _) v w
  · intro h
    induction h with
    | undefined => rfl
    | null => rfl
    | string s => exact congrArg some (beq_self_eq_true s)
    | function r => exact congrArg some (beq_self_eq_true r)
    | amount hv hw h => rw [equal?, equalWith_of_amount hv hw, h]; rfl
    | array hlength _ ih =>
      rw [equal?, equalWith, if_pos (beq_iff_eq.mpr hlength)]
      exact (equalItems_eq_some_true hlength).mpr ih
    | @object r s hnames _ ih =>
      rw [equal?_object, if_pos ((sameNames_iff_perm (hst r)).mpr hnames)]
      refine allPass_eq_some_true.mpr fun e he => ?_
      obtain ⟨x, hx⟩ := Slots.exists_lookup_of_mem_names
        (hnames.mem_iff.mp (List.mem_map_of_mem (f := Prod.fst) he))
      rw [hx]
      exact ih e.1 e.2 x (hst.mem_slots_iff.mp he) hx

/-- Comparing a value that is nested to some depth with any other ends. -/
theorem NanFree.equal?_isSome (h : st.NanFree v) (w : Value) : (st.equal? v w).isSome := by
  suffices hobjects : ∀ r, v.Mentions r → ∀ s, (st.equal? (.object r) (.object s)).isSome from
    equalWith_isSome v w hobjects
  induction h with
  | array _ ih =>
    intro r hr
    obtain ⟨v, hv, hr⟩ := Value.mentions_array.mp hr
    exact ih v hv r hr
  | @object r _ ih =>
    intro r' hr' s
    cases hr'
    rw [equal?_object]
    split_ifs
    · exact allPass_isSome fun e he => equalWith_isSome e.2 _ (ih e he)
    · rfl
  | _ => exact nofun

/-! ### Laws -/

/-- The laws of comparing values. A value is equal to itself, and told from any other, unless it holds
a `nan` or is nested without end. -/
structure EqualityLaws (st : Store) : Prop where
  reflexive : ∀ v, st.equal? v v = some true ↔ st.NanFree v
  symmetric : ∀ v w, st.equal? v w = some true → st.equal? w v = some true
  transitive : ∀ u v w, st.equal? u v = some true → st.equal? v w = some true →
    st.equal? u w = some true
  answered : ∀ v w, st.NanFree v → (st.equal? v w).isSome
  array : ∀ vs ws, st.equal? (.array vs) (.array ws) = some true ↔
    List.Forall₂ (fun v w => st.equal? v w = some true) vs ws
  object : ∀ r s, st.equal? (.object r) (.object s) = some true ↔
    (st.slots r).names.Perm (st.slots s).names ∧
      ∀ name v w, (st.slots r).lookup name = some v → (st.slots s).lookup name = some w →
        st.equal? v w = some true

theorem Dictionaries.equalityLaws (hst : st.Dictionaries) : st.EqualityLaws where
  reflexive v := (equal?_eq_some_true hst).trans ⟨fun h => h.nanFree hst, NanFree.equal_self⟩
  symmetric v w h := (equal?_eq_some_true hst).mpr ((equal?_eq_some_true hst).mp h).symm
  transitive u v w huv hvw :=
    (equal?_eq_some_true hst).mpr
      (((equal?_eq_some_true hst).mp huv).trans ((equal?_eq_some_true hst).mp hvw))
  answered v w h := h.equal?_isSome w
  array vs ws := by
    simp only [equal?_eq_some_true hst, List.forall₂_iff_get]
    constructor
    · intro h
      cases h with
      | amount hv => cases hv
      | array hlength h =>
        refine ⟨hlength, fun i hv hw => ?_⟩
        exact h i _ _ (List.getElem?_eq_getElem hv) (List.getElem?_eq_getElem hw)
    · rintro ⟨hlength, h⟩
      refine .array hlength fun i v w hv hw => ?_
      obtain ⟨hi, rfl⟩ := List.getElem?_eq_some_iff.mp hv
      obtain ⟨hj, rfl⟩ := List.getElem?_eq_some_iff.mp hw
      exact h i hi hj
  object r s := by
    simp only [equal?_eq_some_true hst]
    constructor
    · intro h
      cases h with
      | amount hv => cases hv
      | object hnames h => exact ⟨hnames, h⟩
    · exact fun ⟨hnames, h⟩ => .object hnames h

end Store
end ChatTemplate
