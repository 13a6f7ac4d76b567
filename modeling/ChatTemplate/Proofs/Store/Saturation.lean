import ChatTemplate.Datum
import ChatTemplate.Store.Equality
import Mathlib.Data.Finset.Card
import Mathlib.Data.Finset.Prod
import Mathlib.Data.Fintype.Basic

/-!
# Enough objects inside each other

Spelling out a value and comparing two values follow objects inside each other up to a bound. With a
greater bound only more questions are answered, and none any more above the number of objects (or of
pairs of objects) in the store: `objectWithin_eq_of_le`, `equalObjects_eq_of_le`. So the answers do
not depend on how many objects the store holds besides those that are asked for.
-/

namespace ChatTemplate

/-! ### Rounds that only add answers -/

section Rounds
variable {ι β : Type}

/-- `g` answers whatever `f` answers, and the same. -/
def Extends (f g : ι → Option β) : Prop := ∀ i b, f i = some b → g i = some b

variable {step : (ι → Option β) → ι → Option β} {answers : ℕ → ι → Option β}

theorem eq_of_extends {f g : ι → Option β} (h : Extends f g)
    (hsome : ∀ i, (g i).isSome → (f i).isSome) : f = g := by
  funext i
  cases hf : f i with
  | some b => exact (h i b hf).symm
  | none =>
    have := hsome i
    simp only [hf, Option.isSome_none, Bool.false_eq_true, imp_false] at this
    exact (Option.not_isSome_iff_eq_none.mp this).symm

theorem answers_extends (hstep : ∀ f g, Extends f g → Extends (step f) (step g))
    (hzero : ∀ i, answers 0 i = none) (hsucc : ∀ n, answers (n + 1) = step (answers n)) (n : ℕ) :
    Extends (answers n) (answers (n + 1)) := by
  induction n with
  | zero => intro i b h; rw [hzero] at h; cases h
  | succ n ih => rw [hsucc n, hsucc (n + 1)]; exact hstep _ _ ih

theorem answers_eq_of_eq_succ (hsucc : ∀ n, answers (n + 1) = step (answers n)) {m : ℕ}
    (hm : answers (m + 1) = answers m) {n : ℕ} (h : m ≤ n) : answers n = answers m := by
  induction n, h using Nat.le_induction with
  | base => rfl
  | succ n _ ih => rw [hsucc, ih, ← hsucc, hm]

variable (step answers) in
/-- Where a round adds no answer, none is ever added again; and after the first one only the questions
in `pending` are without an answer, of which each round before that answers one. -/
theorem answers_saturate (pending : Finset ι) (hstep : ∀ f g, Extends f g → Extends (step f) (step g))
    (hzero : ∀ i, answers 0 i = none) (hsucc : ∀ n, answers (n + 1) = step (answers n))
    (hpending : ∀ i ∉ pending, (answers 1 i).isSome) {n : ℕ}
    (h : pending.card + 1 ≤ n) : answers n = answers (pending.card + 1) := by
  have hext := answers_extends hstep hzero hsucc
  let answered (n : ℕ) := pending.filter fun i => (answers n i).isSome
  have hprogress : ∀ k, (∃ m ≤ k, answers (m + 1) = answers m) ∨ k ≤ (answered (k + 1)).card := by
    intro k
    induction k with
    | zero => exact .inr (Nat.zero_le _)
    | succ k ih =>
      rcases ih with ⟨m, hm, heq⟩ | hcard
      · exact .inl ⟨m, Nat.le_succ_of_le hm, heq⟩
      by_cases heq : answers (k + 1 + 1) = answers (k + 1)
      · exact .inl ⟨k + 1, Nat.le_refl _, heq⟩
      refine .inr (Nat.lt_of_le_of_lt hcard (Finset.card_lt_card ?_))
      obtain ⟨i, hnew, hold⟩ :
          ∃ i, (answers (k + 1 + 1) i).isSome ∧ ¬ (answers (k + 1) i).isSome := by
        by_contra hno
        push Not at hno
        exact heq (eq_of_extends (hext (k + 1)) hno).symm
      have hkeep : ∀ j, (answers (k + 1) j).isSome → (answers (k + 1 + 1) j).isSome := by
        intro j hj
        obtain ⟨b, hb⟩ := Option.isSome_iff_exists.mp hj
        exact Option.isSome_iff_exists.mpr ⟨b, hext _ _ _ hb⟩
      have hi : i ∈ pending := by
        by_contra hi
        refine hold ?_
        obtain ⟨b, hb⟩ := Option.isSome_iff_exists.mp (hpending i hi)
        exact Option.isSome_iff_exists.mpr ⟨b, Nat.rec hb (fun m hm => hext _ _ _ hm) k⟩
      refine Finset.ssubset_iff_of_subset (fun j hj => ?_) |>.mpr ⟨i, ?_, ?_⟩
      · obtain ⟨hj, hsome⟩ := Finset.mem_filter.mp hj
        exact Finset.mem_filter.mpr ⟨hj, hkeep j hsome⟩
      · exact Finset.mem_filter.mpr ⟨hi, hnew⟩
      · exact fun hmem => hold (Finset.mem_filter.mp hmem).2
  rcases hprogress (pending.card + 1) with ⟨m, hm, heq⟩ | hcard
  · rw [answers_eq_of_eq_succ hsucc heq (Nat.le_trans hm h), answers_eq_of_eq_succ hsucc heq hm]
  · exact absurd (Nat.le_trans hcard (Finset.card_filter_le _ _)) (Nat.not_succ_le_self _)

end Rounds

namespace Store

/-! ### Spelling out -/

section Data
variable {st : Store} {f g : ObjectRef → Option Datum}

mutual

theorem datumWith_mono (h : Extends f g) (v : Value) (d : Datum)
    (hd : st.datumWith f v = some d) : st.datumWith g v = some d := by
  cases v with
  | array items =>
    simp only [datumWith, Option.map_eq_some_iff] at hd ⊢
    obtain ⟨ds, hds, rfl⟩ := hd
    exact ⟨ds, dataWith_mono h items ds hds, rfl⟩
  | object r => exact h r d hd
  | _ => exact hd

theorem dataWith_mono (h : Extends f g) (vs : List Value) (ds : List Datum)
    (hds : st.dataWith f vs = some ds) : st.dataWith g vs = some ds := by
  cases vs with
  | nil => exact hds
  | cons v vs =>
    simp only [dataWith, Option.bind_eq_bind, Option.bind_eq_some_iff] at hds ⊢
    obtain ⟨d, hd, rest, hrest, heq⟩ := hds
    exact ⟨d, datumWith_mono h v d hd, rest, dataWith_mono h vs rest hrest, heq⟩

end

/-- The number of objects in the store is enough to spell out any object. -/
theorem objectWithin_eq_of_le (st : Store) {n : ℕ} (h : st.objects.size + 1 ≤ n) :
    st.objectWithin n = st.objectWithin (st.objects.size + 1) := by
  have hsat := answers_saturate
    (fun f r => do
      let ds ← st.dataWith f ((st.slots r).map Prod.snd)
      return .object ((st.slots r).names.zip ds))
    st.objectWithin (Finset.range st.objects.size) (n := n)
  rw [Finset.card_range] at hsat
  refine hsat ?_ (fun _ => rfl) (fun _ => rfl) ?_ h
  · intro f g hfg r d hd
    simp only [Option.bind_eq_bind, Option.bind_eq_some_iff] at hd ⊢
    obtain ⟨ds, hds, hd⟩ := hd
    exact ⟨ds, dataWith_mono hfg _ ds hds, hd⟩
  · intro r hr
    have hslots : st.slots r = [] := by
      rw [Finset.mem_range, Nat.not_lt] at hr
      simp [slots, Array.getElem?_eq_none hr]
    simp [objectWithin, hslots, dataWith]

end Data

/-! ### Comparing -/

section Equality
variable {st : Store} {f g : ObjectRef → ObjectRef → Option Bool}

mutual

theorem equalWith_mono (h : Extends f.uncurry g.uncurry) (v w : Value) (b : Bool)
    (hb : equalWith f v w = some b) : equalWith g v w = some b := by
  cases v with
  | array as =>
    cases w with
    | array bs =>
      simp only [equalWith] at hb ⊢
      by_cases hlen : (as.length == bs.length) = true
      · rw [if_pos hlen] at hb ⊢
        exact equalItems_mono h as bs b hb
      · rw [if_neg hlen] at hb ⊢
        exact hb
    | _ => exact hb
  | object r =>
    cases w with
    | object s => exact h (r, s) b hb
    | _ => exact hb
  | _ => cases w <;> exact hb

theorem equalItems_mono (h : Extends f.uncurry g.uncurry) (vs ws : List Value) (b : Bool)
    (hb : equalItems f vs ws = some b) : equalItems g vs ws = some b := by
  cases vs with
  | nil => exact hb
  | cons v vs =>
    cases ws with
    | nil => exact hb
    | cons w ws =>
      simp only [equalItems] at hb ⊢
      cases hvw : equalWith f v w with
      | none => rw [hvw] at hb; cases hb
      | some c =>
        rw [equalWith_mono h v w c hvw]
        rw [hvw] at hb
        cases c with
        | true => exact equalItems_mono h vs ws b hb
        | false => exact hb

end

theorem allPass_mono {α : Type} {p q : α → Option Bool} (h : Extends p q) (xs : List α) (b : Bool)
    (hb : allPass p xs = some b) : allPass q xs = some b := by
  induction xs with
  | nil => exact hb
  | cons x xs ih =>
    simp only [allPass] at hb ⊢
    cases hx : p x with
    | none => rw [hx] at hb; cases hb
    | some c =>
      rw [h x c hx]
      rw [hx] at hb
      cases c with
      | true => exact ih hb
      | false => exact hb

/-- Two objects of which one is missing are compared without comparing others. -/
theorem equalObjects_one_isSome (st : Store) {r s : ObjectRef}
    (h : st.objects.size ≤ r ∨ st.objects.size ≤ s) : (st.equalObjects 1 r s).isSome := by
  have hmissing : ∀ r, st.objects.size ≤ r → st.slots r = [] := by
    intro r hr
    simp [slots, Array.getElem?_eq_none hr]
  simp only [equalObjects]
  split
  case isFalse => rfl
  case isTrue hsame =>
    have hlen : (st.slots r).length = (st.slots s).length := by
      simp only [sameNames, Bool.and_eq_true, beq_iff_eq] at hsame
      exact hsame.1
    have hnil : st.slots r = [] := by
      rcases h with h | h
      · exact hmissing r h
      · rw [hmissing s h] at hlen
        exact List.length_eq_zero_iff.mp hlen
    rw [hnil]
    rfl

/-- The number of pairs of objects in the store is enough to compare any two objects. -/
theorem equalObjects_eq_of_le (st : Store) {n : ℕ}
    (h : st.objects.size * st.objects.size + 1 ≤ n) :
    st.equalObjects n = st.equalObjects (st.objects.size * st.objects.size + 1) := by
  have hsat := answers_saturate
    (fun f rs =>
      if sameNames (st.slots rs.1) (st.slots rs.2) then
        allPass (fun e =>
          equalWith (Function.curry f) e.2 (((st.slots rs.2).lookup e.1).getD .undefined))
          (st.slots rs.1)
      else some false)
    (fun n => (st.equalObjects n).uncurry)
    (Finset.range st.objects.size ×ˢ Finset.range st.objects.size) (n := n)
  rw [Finset.card_product, Finset.card_range] at hsat
  refine congrArg Function.curry (hsat ?_ (fun _ => rfl) (fun _ => rfl) ?_ h)
  · intro f g hfg rs b hb
    dsimp only at hb ⊢
    by_cases hsame : sameNames (st.slots rs.1) (st.slots rs.2) = true
    · rw [if_pos hsame] at hb ⊢
      have hmono (e : Text × Value) (c : Bool) := equalWith_mono (f := f.curry) (g := g.curry) hfg e.2
        (((st.slots rs.2).lookup e.1).getD .undefined) c
      exact allPass_mono hmono _ b hb
    · rw [if_neg hsame] at hb ⊢
      exact hb
  · rintro ⟨r, s⟩ hrs
    simp only [Finset.mem_product, Finset.mem_range, not_and_or, Nat.not_lt] at hrs
    exact equalObjects_one_isSome st hrs

end Equality
end Store
end ChatTemplate
