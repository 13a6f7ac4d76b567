import ChatTemplate.Eval.Stmt
import ChatTemplate.Proofs.Eval.Outcome
import Mathlib.Data.Nat.Init
import Mathlib.Logic.Basic
import Mathlib.Tactic.ByContra
import Mathlib.Tactic.SplitIfs

/-!
# Slices

A slice walks through a sequence: from its first place, step after step, as long as the place is
before the stop (`Slice.Walks`). Both bounds are settled against the length first (`Slice.settle`).
The places come from a count of the steps, which leads along the same walk (`Slice.walks_pick`); what
holds of all slices is then a property of walks.
-/

namespace ChatTemplate
namespace Slice
variable {α β : Type} {xs ys zs : List α} {step i mid stop : Int}

/-- Does the step lead from `i` towards `stop`? -/
def Before (step i stop : Int) : Prop := if 0 < step then i < stop else stop < i

/-- From the place `i` the walk sees these members: it ends at the first place that is not before
`stop`, and each place on it is one of the sequence. -/
inductive Walks (xs : List α) (step stop : Int) : Int → List α → Prop
  | done {i : Int} (h : ¬Before step i stop) : Walks xs step stop i []
  | visit {i : Int} {x : α} {ys : List α} (h : Before step i stop) (inside : 0 ≤ i)
      (member : xs[i.toNat]? = some x) (rest : Walks xs step stop (i + step) ys) :
      Walks xs step stop i (x :: ys)

/-- A bound of a slice of a sequence of length `n`: one below zero has the length added, and the
result is held between the ends, which are those of the places that a step can lead to. -/
def settle (n : Nat) (step bound : Int) : Int :=
  let fromStart := if bound < 0 then bound + n else bound
  if 0 < step then max 0 (min n fromStart) else max (-1) (min (n - 1) fromStart)

/-- Where a slice begins. -/
def origin (n : Nat) (step : Int) : Option Int → Int
  | some bound => settle n step bound
  | none => if 0 < step then 0 else n - 1

/-- Where a slice ends. -/
def destination (n : Nat) (step : Int) : Option Int → Int
  | some bound => settle n step bound
  | none => if 0 < step then n else -1

/-- `ys` is the slice `xs[start:stop:step]`. -/
def Yields (xs : List α) (start stop : Option Int) (step : Int) (ys : List α) : Prop :=
  Walks xs step (destination xs.length step stop) (origin xs.length step start) ys

/-! ### Walks -/

namespace Walks

theorem unique (h : Walks xs step stop i ys) (h' : Walks xs step stop i zs) : ys = zs := by
  induction h generalizing zs with
  | done h =>
    cases h' with
    | done => rfl
    | visit hbefore => exact absurd hbefore h
  | visit h _ member _ ih =>
    cases h' with
    | done hdone => exact absurd h hdone
    | visit _ _ member' rest' =>
      cases member.symm.trans member'
      rw [ih rest']

/-- A walk by single steps up to `mid` and one from there are one walk. -/
theorem append (h : Walks xs 1 mid i ys) (hi : i ≤ mid) (hmid : mid ≤ stop)
    (h' : Walks xs 1 stop mid zs) : Walks xs 1 stop i (ys ++ zs) := by
  induction h with
  | done h =>
    have : ¬_ < mid := h
    obtain rfl := Int.le_antisymm hi (by omega)
    exact h'
  | visit h inside member _ ih =>
    have : _ < mid := h
    exact .visit (show _ < stop by omega) inside member (ih (by omega))

protected theorem map (f : α → β) (h : Walks xs step stop i ys) :
    Walks (xs.map f) step stop i (ys.map f) := by
  induction h with
  | done h => exact .done h
  | visit h inside member _ ih => exact .visit h inside (by simp [member]) ih

end Walks

/-- By single steps, everything from a place on is seen. -/
theorem walks_drop (xs : List α) {k : Nat} (hk : k ≤ xs.length) :
    Walks xs 1 xs.length k (xs.drop k) := by
  induction hk using Nat.decreasingInduction with
  | self => simpa using Walks.done (show ¬_ from Int.lt_irrefl _)
  | of_succ k hk ih =>
    rw [List.drop_eq_getElem_cons hk]
    exact .visit (show (k : Int) < _ by omega) (by omega) (by simp) ih

/-- By single steps back from before the place `k`, everything before it is seen in reverse. -/
theorem walks_take_reverse (xs : List α) {k : Nat} (hk : k ≤ xs.length) :
    Walks xs (-1) (-1) (k - 1) (xs.take k).reverse := by
  induction k with
  | zero => exact .done (show ¬_ by simp [Before])
  | succ k ih =>
    have hplace : ((k + 1 : Nat) : Int) - 1 = k := by omega
    rw [List.take_succ_eq_append_getElem hk, List.reverse_append, hplace]
    exact .visit (show (-1 : Int) < k by omega) (by omega) (by simp) (ih (by omega))

/-! ### The places -/

theorem settle_eq_clamp (n : Nat) (step bound : Int) :
    settle n step bound =
      clamp n (if 0 < step then 0 else -1) (if 0 < step then n else n - 1) bound := by
  simp only [settle, clamp]
  split_ifs <;> omega

theorem places_eq (n : Nat) (start stop : Option Int) (step : Int) :
    places n start stop step =
      progression (origin n step start) (destination n step stop) step := by
  refine congrArg₂ (progression · · step) ?_ ?_
  · cases start with
    | none => exact ite_congr rfl (fun h => if_pos h) (fun h => if_neg h)
    | some b => exact (settle_eq_clamp n step b).symm
  · cases stop with
    | none => exact ite_congr rfl (fun h => if_pos h) (fun h => if_neg h)
    | some b => exact (settle_eq_clamp n step b).symm

theorem count_eq_zero (hstep : step ≠ 0) (h : ¬Before step i stop) : count i stop step = 0 := by
  unfold Before at h
  unfold count
  split_ifs at h ⊢ with hpos
  · exact Int.toNat_eq_zero.mpr (Int.lt_add_one_iff.mp (Int.ediv_lt_of_lt_mul hpos (by omega)))
  · exact Int.toNat_eq_zero.mpr
      (Int.lt_add_one_iff.mp (Int.ediv_lt_of_lt_mul (by omega) (by omega)))

theorem count_eq_succ (hstep : step ≠ 0) (h : Before step i stop) :
    count i stop step = count (i + step) stop step + 1 := by
  -- a step less to go takes one from the distance divided by the step and rounded up
  have key (d s : Int) (hs : 0 < s) (hd : 0 < d) :
      ((d + s - 1) / s).toNat = ((d - s + s - 1) / s).toNat + 1 := by
    have hnonneg : 0 ≤ (d - 1) / s := Int.ediv_nonneg (by omega) (by omega)
    rw [show d + s - 1 = d - 1 + s by omega, show d - s + s - 1 = d - 1 by omega,
      Int.add_ediv_of_dvd_right (Int.dvd_refl s), Int.ediv_self (by omega)]
    omega
  unfold Before at h
  unfold count
  split_ifs at h ⊢ with hpos
  · simpa only [Int.sub_sub] using key (stop - i) step hpos (by omega)
  · have := key (i - stop) (-step) (by omega) (by omega)
    rwa [show i - stop + -step - 1 = i - stop - step - 1 by omega,
      show i - stop - -step + -step - 1 = i + step - stop - step - 1 by omega] at this

theorem progression_eq_cons (hstep : step ≠ 0) (h : Before step i stop) :
    progression i stop step = i :: progression (i + step) stop step := by
  unfold progression
  rw [count_eq_succ hstep h, List.range_succ_eq_map, List.map_cons, List.map_map]
  congr 1
  · simp
  · refine List.map_congr_left fun k _ => ?_
    show i + step * ((k + 1 : Nat) : Int) = i + step + step * k
    rw [Int.natCast_add, Int.mul_add]
    simp only [Int.natCast_one, Int.mul_one]
    omega

/-- The progression is a walk if it stays within the sequence. -/
theorem walks_progression (hstep : step ≠ 0) (hup : 0 < step → 0 ≤ i ∧ stop ≤ xs.length)
    (hdown : step < 0 → i < xs.length ∧ -1 ≤ stop) :
    Walks xs step stop i ((progression i stop step).filterMap fun j => xs[j.toNat]?) := by
  -- on the steps that are left: the places themselves may go up or down
  induction hcount : count i stop step generalizing i with
  | zero =>
    have hdone : ¬Before step i stop := fun h => by
      rw [count_eq_succ hstep h] at hcount
      cases hcount
    simpa [progression, hcount] using Walks.done hdone
  | succ k ih =>
    have hbefore : Before step i stop := by
      by_contra h
      rw [count_eq_zero hstep h] at hcount
      cases hcount
    have hinside : 0 ≤ i ∧ i < xs.length := by
      unfold Before at hbefore
      split_ifs at hbefore with hpos
      · exact ⟨(hup hpos).1, by have := (hup hpos).2; omega⟩
      · have := hdown (by omega)
        omega
    have hlt : i.toNat < xs.length := by omega
    have hmember : xs[i.toNat]? = some xs[i.toNat] := List.getElem?_eq_getElem hlt
    simp only [progression_eq_cons hstep hbefore, List.filterMap_cons, hmember]
    refine .visit hbefore hinside.1 hmember (ih (fun hpos => ?_) (fun hneg => ?_) ?_)
    · have := hup hpos
      omega
    · have := hdown hneg
      omega
    · rw [count_eq_succ hstep hbefore] at hcount
      omega

/-- What is picked is what the walk of the slice sees. -/
theorem walks_pick (xs : List α) (start stop : Option Int) (hstep : step ≠ 0) :
    Yields xs start stop step (pick xs start stop step) := by
  unfold Yields pick
  simp only [List.size_toArray, List.getElem?_toArray, places_eq]
  refine walks_progression hstep (fun hpos => ⟨?_, ?_⟩) (fun hneg => ⟨?_, ?_⟩)
  · cases start <;> simp only [origin, settle] <;> split_ifs <;> omega
  · cases stop <;> simp only [destination, settle] <;> split_ifs <;> omega
  · cases start <;> simp only [origin, settle] <;> split_ifs <;> omega
  · cases stop <;> simp only [destination, settle] <;> split_ifs <;> omega

theorem pick_eq_of_yields {start stop : Option Int} (hstep : step ≠ 0)
    (h : Yields xs start stop step ys) : pick xs start stop step = ys :=
  (walks_pick xs start stop hstep).unique h

/-! ### Laws of slices -/

/-- What is before a bound and what is from it on make up the sequence. -/
theorem pick_append_pick (xs : List α) (k : Int) :
    pick xs none (some k) 1 ++ pick xs (some k) none 1 = xs := by
  have hwhole : Walks xs 1 xs.length (0 : Nat) xs := walks_drop xs (Nat.zero_le _)
  have hfront : Walks xs 1 (settle xs.length 1 k) 0 (pick xs none (some k) 1) :=
    walks_pick xs none (some k) Int.one_ne_zero
  have hback : Walks xs 1 xs.length (settle xs.length 1 k) (pick xs (some k) none 1) :=
    walks_pick xs (some k) none Int.one_ne_zero
  have hlow : 0 ≤ settle xs.length 1 k := by
    simp only [settle]
    split_ifs <;> omega
  have hhigh : settle xs.length 1 k ≤ xs.length := by
    simp only [settle]
    split_ifs <;> omega
  exact (hfront.append hlow hhigh hback).unique hwhole

theorem pick_reverse (xs : List α) : pick xs none none (-1) = xs.reverse := by
  refine pick_eq_of_yields (by omega) ?_
  have hwhole := walks_take_reverse xs (Nat.le_refl xs.length)
  rwa [List.take_length] at hwhole

theorem pick_map (f : α → β) (xs : List α) (start stop : Option Int) (hstep : step ≠ 0) :
    pick (xs.map f) start stop step = (pick xs start stop step).map f := by
  refine pick_eq_of_yields hstep ?_
  unfold Yields
  rw [List.length_map]
  exact (walks_pick xs start stop hstep).map f

end Slice

namespace Eval
open Slice (Yields pick)
variable {host : Host} {ev : Evaluator} {scope : Scope}

/-- A bound of a slice is absent, evaluates to undefined, which counts as absent, or to an integer. -/
inductive GivesBound (ev : Evaluator) (scope : Scope) :
    Option Expr → Store → Option Int → Store → Prop
  | absent (st : Store) : GivesBound ev scope none st none st
  | undefined {e : Expr} {st st' : Store} (h : Leads (ev.expr e scope) st .undefined st') :
      GivesBound ev scope (some e) st none st'
  | int {e : Expr} {st st' : Store} {i : Int} (h : Leads (ev.expr e scope) st (.int i) st') :
      GivesBound ev scope (some e) st (some i) st'

theorem GivesBound.leads {part : Option Expr} {st st' : Store} {b : Option Int}
    (h : GivesBound ev scope part st b st') : Leads (bound ev scope part) st b st' := by
  cases h with
  | absent => exact .pure none st
  | undefined h => exact h.bind (.pure none st')
  | int h => exact h.bind (.pure (some _) st')

theorem step_ne_zero {step : Option Int} (h : step ≠ some 0) : step.getD 1 ≠ 0 := by
  cases step with
  | none => exact Int.one_ne_zero
  | some i => simpa using h

theorem slice_array {start stop step : Option Int} (hstep : step ≠ some 0) (items : List Value) :
    slice (.array items) start stop step = pure (.array (pick items start stop (step.getD 1))) :=
  if_neg (by simpa using hstep)

theorem slice_string {start stop step : Option Int} (hstep : step ≠ some 0) (s : Text) :
    slice (.string s) start stop step =
      pure (.ofPoints (pick s.toList start stop (step.getD 1))) :=
  if_neg (by simpa using hstep)

theorem binary_plus_array (a b : List Value) :
    binary "+" (.array a) (.array b) = pure (.array (a ++ b)) := rfl

theorem binary_plus_string (s t : Text) :
    binary "+" (.string s) (.string t) = pure (.string (s ++ t)) := rfl

/-- A text as the sequence of its characters, each one a string. -/
def characters (s : Text) : List Value := s.toList.map fun c => .ofPoints [c]

theorem intercalate_empty (ts : List Text) :
    Text.intercalate "" ts = .ofList (ts.map Text.toList).flatten := by
  refine congrArg Text.ofList ?_
  show List.intercalate [] (ts.map Text.toList) = _
  induction ts with
  | nil => rfl
  | cons t ts ih =>
    cases ts with
    | nil => simp [List.intercalate]
    | cons u ts => simpa [List.intercalate] using ih

theorem joinFilter_characters (cs : List Codepoint) :
    joinFilter (.array (cs.map fun c => .ofPoints [c])) Args.none = pure (.ofPoints cs) := by
  have htexts : (cs.map fun c => Value.ofPoints [c]).mapM textOf =
      pure (cs.map fun c => Text.ofList [c]) := by
    induction cs with
    | nil => rfl
    | cons c cs ih => rw [List.map_cons, List.mapM_cons, ih]; rfl
  show (do return Value.string (Text.intercalate "" (← List.mapM textOf _))) = _
  rw [htexts, pure_bind, intercalate_empty, List.map_map]
  exact congrArg (fun cs => pure (Value.ofPoints cs)) (List.flatMap_singleton' cs)

theorem leads_slice {e : Expr} {a b c : Option Expr} {start stop step : Option Int} {v w : Value}
    {st st₁ st₂ st₃ st₄ : Store} (he : Leads (ev.expr e scope) st v st₁)
    (ha : GivesBound ev scope a st₁ start st₂) (hb : GivesBound ev scope b st₂ stop st₃)
    (hc : GivesBound ev scope c st₃ step st₄) (hw : slice v start stop step = pure w) :
    Leads (Eval.expr host ev (.slice e a b c) scope) st w st₄ :=
  leads_tryCatch_throw.mpr <| he.bind <| ha.leads.bind <| hb.leads.bind <| hc.leads.bind <| by
    rw [hw]
    exact .pure w st₄

/-- A slice of an array or a string is the walk that its bounds describe, whether they are absent,
undefined or integers of any size. So what is before a bound and what is from it on make up the
whole, a slice by single steps back is the reverse, and a string is sliced as its characters are. -/
theorem slice_laws (host : Host) (ev : Evaluator) (scope : Scope) :
    (∀ e a b c start stop step v st st₁ st₂ st₃ st₄, Leads (ev.expr e scope) st v st₁ →
      GivesBound ev scope a st₁ start st₂ → GivesBound ev scope b st₂ stop st₃ →
      GivesBound ev scope c st₃ step st₄ → step ≠ some 0 →
      (∀ items, v = .array items → ∃ picked, Yields items start stop (step.getD 1) picked ∧
        Leads (Eval.expr host ev (.slice e a b c) scope) st (.array picked) st₄) ∧
      (∀ s, v = .string s → ∃ picked, Yields s.toList start stop (step.getD 1) picked ∧
        Leads (Eval.expr host ev (.slice e a b c) scope) st (.ofPoints picked) st₄)) ∧
    (∀ (v : Value) (k : Int), v.kind = .array ∨ v.kind = .string →
      (do binary "+" (← slice v none (some k) none) (← slice v (some k) none none)) = pure v) ∧
    (∀ items, slice (.array items) none none (some (-1)) = pure (.array items.reverse)) ∧
    (∀ s, slice (.string s) none none (some (-1)) = pure (.ofPoints s.toList.reverse)) ∧
    ∀ s start stop step, slice (.string s) start stop step =
      (do joinFilter (← slice (.array (characters s)) start stop step) Args.none) := by
  have hone : none ≠ some (0 : Int) := nofun
  refine ⟨?walk, ?halves, ?reverseArray, ?reverseString, ?join⟩
  case walk =>
    intro e a b c start stop step v st st₁ st₂ st₃ st₄ he ha hb hc hstep
    have hne := step_ne_zero hstep
    refine ⟨?_, ?_⟩
    · rintro items rfl
      exact ⟨_, Slice.walks_pick items start stop hne,
        leads_slice he ha hb hc (slice_array hstep items)⟩
    · rintro s rfl
      exact ⟨_, Slice.walks_pick s.toList start stop hne,
        leads_slice he ha hb hc (slice_string hstep s)⟩
  case halves =>
    intro v k hv
    cases v with
    | array items =>
      rw [slice_array hone, slice_array hone, pure_bind, pure_bind, binary_plus_array]
      exact congrArg (fun xs => pure (Value.array xs)) (Slice.pick_append_pick items k)
    | string s =>
      rw [slice_string hone, slice_string hone, pure_bind, pure_bind]
      refine (binary_plus_string _ _).trans (congrArg (fun s => pure (Value.string s)) ?_)
      exact Text.toList_injective
        ((Text.toList_append _ _).trans (Slice.pick_append_pick s.toList k))
    | _ => rcases hv with hv | hv <;> cases hv
  case reverseArray =>
    intro items
    rw [slice_array (by simp)]
    exact congrArg (fun xs => pure (Value.array xs)) (Slice.pick_reverse items)
  case reverseString =>
    intro s
    rw [slice_string (by simp)]
    exact congrArg (fun cs => pure (Value.ofPoints cs)) (Slice.pick_reverse s.toList)
  case join =>
    intro s start stop step
    by_cases hstep : step = some 0
    · subst hstep
      rfl
    · rw [slice_string hstep, slice_array hstep, pure_bind, characters,
        Slice.pick_map _ _ _ _ (step_ne_zero hstep), joinFilter_characters]

/-- The slice `"abcd"[::-2]`. -/
theorem slice_laws_backwards :
    let word (s : String) : Word := ⟨s, default⟩
    let e : Expr := .slice (.string (word "abcd")) none none (some (.int (word "-2")))
    ∃ picked, Yields (Text.ofString "abcd").toList none none (-2) picked ∧
      Leads (Eval.expr Host.none (Evaluator.within Host.none 3) e default) Store.initial
        (.ofPoints picked) Store.initial :=
  ((slice_laws Host.none (Evaluator.within Host.none 3) default).1 _ _ _ _ none none (some (-2))
    (.string "abcd") Store.initial Store.initial Store.initial Store.initial Store.initial
    ⟨rfl, rfl⟩ (.absent _) (.absent _) (.int ⟨rfl, rfl⟩) (by decide)).2 "abcd" rfl

end Eval
end ChatTemplate
