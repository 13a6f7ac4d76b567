import ChatTemplate.Sorting
import Mathlib.Tactic.SplitIfs

/-!
# What a sort gives

Let `R` be transitive, and let every answer of a comparison put the two elements that it is about
into the order `R`, whichever answer it is (`Sorting.Decides`). Then what a sort answers is a
permutation of the list in the order `R` (`Sorting.sort_gives`). Comparisons are asked only about a
later element and an earlier one, in this order, so that `R` may tell equal elements apart by their
places; and `R` need not be strict, nor the comparison consistent.
-/

namespace ChatTemplate.Sorting
variable {ε α β : Type}

/-- What the computation answers, if it does, satisfies `P`. -/
def Gives (P : α → Prop) (m : Except ε α) : Prop := ∀ a, m = .ok a → P a

namespace Gives
variable {P : α → Prop} {Q : β → Prop} {m : Except ε α} {f : α → Except ε β}

theorem ok {a : α} (h : P a) : Gives P (.ok a : Except ε α) := by
  rintro _ ⟨⟩
  exact h

theorem self : Gives (fun a => m = .ok a) m := fun _ h => h

theorem bind (hm : Gives P m) (hf : ∀ a, P a → Gives Q (f a)) : Gives Q (m >>= f) := by
  cases m with
  | ok a => exact hf a (hm a rfl)
  | error e => exact nofun

theorem mono {P' : α → Prop} (hm : Gives P m) (h : ∀ a, P a → P' a) : Gives P' m :=
  fun a ha => h a (hm a ha)

end Gives

/-- What the computation answers satisfies `P`, from whatever state it starts. -/
def SorterGives (P : α → Prop) (m : Sorter ε α) : Prop := ∀ limit, Gives (fun r => P r.1) (m limit)

namespace SorterGives
variable {P : α → Prop} {Q : β → Prop} {m : Sorter ε α} {f : α → Sorter ε β}

theorem pure {a : α} (h : P a) : SorterGives P (Pure.pure a : Sorter ε α) := fun _ => .ok h

theorem bind (hm : SorterGives P m) (hf : ∀ a, P a → SorterGives Q (f a)) :
    SorterGives Q (m >>= f) :=
  fun limit => (hm limit).bind fun r hr => hf r.1 hr r.2

theorem mono {P' : α → Prop} (hm : SorterGives P m) (h : ∀ a, P a → P' a) : SorterGives P' m :=
  fun limit => (hm limit).mono fun r => h r.1

theorem lift {m : Except ε α} (hm : Gives P m) : SorterGives P (liftM m : Sorter ε α) :=
  fun _ => hm.bind fun _ ha => .ok ha

end SorterGives

/-- `ys` are the elements of `xs` in the order `R`. -/
structure InOrder (R : α → α → Prop) (xs ys : List α) : Prop where
  perm : ys.Perm xs
  ordered : ys.Pairwise R

/-- The answer whether `y` is less than `x` puts the two into the order `R`. -/
structure Decides (less : α → α → Except ε Bool) (R : α → α → Prop) (x y : α) : Prop where
  above : less y x = .ok true → R y x
  notAbove : less y x = .ok false → R x y

theorem Decides.opposite {less : α → α → Except ε Bool} {R : α → α → Prop} {x y : α}
    (h : Decides less R x y) : Decides (fun x y => less y x) (fun x y => R y x) y x :=
  ⟨h.above, h.notAbove⟩

theorem notAbove_eq_ok {less : α → α → Except ε Bool} {x y : α} {b : Bool}
    (h : notAbove less x y = .ok b) : less y x = .ok !b := by
  unfold notAbove at h
  cases hless : less y x with
  | error e =>
    rw [hless] at h
    cases h
  | ok c =>
    rw [hless] at h
    cases h
    rw [Bool.not_not]

/-! ### Searches -/

/-- The places below `k` satisfy `L`, the others `U`. -/
structure Parts (L U : Nat → Prop) (k : Nat) : Prop where
  below : ∀ j < k, L j
  above : ∀ j, k ≤ j → U j

section Places
variable {p : Nat → Except ε Bool} {L U : Nat → Prop}
  (hyes : ∀ i, p i = .ok true → ∀ j ≤ i, L j) (hno : ∀ i, p i = .ok false → ∀ j, i ≤ j → U j)
include hyes hno

theorem bisect_gives (mirrored : Bool) (low width : Nat) (hlow : ∀ j < low, L j)
    (hhigh : ∀ j, low + width ≤ j → U j) : Gives (Parts L U) (bisect mirrored p low width) := by
  fun_induction bisect mirrored p low width with
  | case1 low => exact .ok ⟨hlow, hhigh⟩
  | case2 low width hwidth half ihright ihleft =>
    have hhalf : half < width := middle_lt mirrored hwidth
    refine Gives.self.bind fun found hfound => ?_
    cases found with
    | true =>
      exact ihright (fun j hj => hyes _ hfound j (by omega)) fun j hj => hhigh j (by omega)
    | false => exact ihleft hlow (hno _ hfound)

theorem widen_gives (n low high : Nat) (hlow : ∀ j ≤ low, L j) (hn : ∀ j, n ≤ j → U j)
    (hlt : low < high) :
    Gives (fun r => (∀ j ≤ r.1, L j) ∧ ∀ j, r.2 ≤ j → U j) (widen p n low high) := by
  fun_induction widen p n low high with
  | case1 low high hhigh ih =>
    refine Gives.self.bind fun found hfound => ?_
    cases found with
    | true => exact ih (hyes _ hfound) (by omega)
    | false => exact .ok ⟨hlow, hno _ hfound⟩
  | case2 low high hhigh => exact .ok ⟨hlow, hn⟩

theorem gallop_gives (mirrored : Bool) (n : Nat) (hn : ∀ j, n ≤ j → U j) :
    Gives (Parts L U) (gallop mirrored p n) := by
  refine Gives.self.bind fun found hfound => ?_
  cases found with
  | true =>
    refine (widen_gives hyes hno n 0 1 (hyes 0 hfound) hn Nat.one_pos).bind fun r hr => ?_
    exact bisect_gives hyes hno mirrored _ _ (fun j hj => hr.1 j (by omega))
      fun j hj => hr.2 j (by omega)
  | false => exact .ok ⟨nofun, hno 0 hfound⟩

end Places

section Members
variable {p : α → Except ε Bool} {xs : List α} {L U : α → Prop}
  (hyes : ∀ x ∈ xs, p x = .ok true → L x) (hno : ∀ x ∈ xs, p x = .ok false → U x)
  (hL : xs.Pairwise fun x y => L y → L x) (hU : xs.Pairwise fun x y => U x → U y)

/-- What is at the place, if it is one of the list, satisfies `P`. -/
def At (P : α → Prop) (xs : List α) (i : Nat) : Prop := ∀ x, xs[i]? = some x → P x

omit hyes hno hL hU in
theorem Parts.take_drop {k : Nat} (h : Parts (At L xs) (At U xs) k) :
    (∀ x ∈ xs.take k, L x) ∧ ∀ x ∈ xs.drop k, U x := by
  constructor
  · intro x hx
    obtain ⟨j, hj, rfl⟩ := List.mem_take_iff_getElem.mp hx
    exact h.below j (by omega) _ (List.getElem?_eq_getElem _)
  · intro x hx
    obtain ⟨j, hj, rfl⟩ := List.mem_drop_iff_getElem.mp hx
    exact h.above _ (by omega) _ (List.getElem?_eq_getElem _)

include hyes hL in
theorem ask_yes {i : Nat} (h : ask p xs i = .ok true) : ∀ j ≤ i, At L xs j := by
  intro j hj y hy
  obtain ⟨hjlt, rfl⟩ := List.getElem?_eq_some_iff.mp hy
  unfold ask at h
  cases hx : xs[i]? with
  | none =>
    rw [hx] at h
    cases h
  | some x =>
    rw [hx] at h
    obtain ⟨hilt, rfl⟩ := List.getElem?_eq_some_iff.mp hx
    have hLi := hyes _ (List.getElem_mem hilt) h
    rcases Nat.lt_or_eq_of_le hj with hlt | rfl
    · exact List.pairwise_iff_getElem.mp hL j i hjlt hilt hlt hLi
    · exact hLi

include hno hU in
theorem ask_no {i : Nat} (h : ask p xs i = .ok false) : ∀ j, i ≤ j → At U xs j := by
  intro j hj y hy
  obtain ⟨hjlt, rfl⟩ := List.getElem?_eq_some_iff.mp hy
  have hilt : i < xs.length := by omega
  unfold ask at h
  rw [List.getElem?_eq_getElem hilt] at h
  have hUi := hno _ (List.getElem_mem hilt) h
  rcases Nat.lt_or_eq_of_le hj with hlt | rfl
  · exact List.pairwise_iff_getElem.mp hU i j hilt hjlt hlt hUi
  · exact hUi

omit hyes hno hL hU in
theorem at_of_length_le {i : Nat} (h : xs.length ≤ i) : At U xs i := by
  intro x hx
  rw [List.getElem?_eq_none h] at hx
  cases hx

include hyes hno hL hU

theorem bisect_ask_gives (mirrored : Bool) :
    Gives (fun k => (∀ x ∈ xs.take k, L x) ∧ ∀ x ∈ xs.drop k, U x)
      (bisect mirrored (ask p xs) 0 xs.length) :=
  (bisect_gives (fun _ => ask_yes hyes hL) (fun _ => ask_no hno hU) mirrored 0 xs.length nofun
    fun j hj => at_of_length_le (by omega)).mono fun _ hk => hk.take_drop

theorem leading_gives (mirrored : Bool) :
    Gives (fun k => (∀ x ∈ xs.take k, L x) ∧ ∀ x ∈ xs.drop k, U x) (leading mirrored p xs) :=
  (gallop_gives (fun _ => ask_yes hyes hL) (fun _ => ask_no hno hU) mirrored xs.length
    fun _ => at_of_length_le).mono fun _ hk => hk.take_drop

end Members

/-! ### Runs -/

section Runs
variable {less : α → α → Except ε Bool} {R : α → α → Prop} {xs ys : List α} {x y : α}
  (htrans : ∀ ⦃x y z⦄, R x y → R y z → R x z)
include htrans

theorem pairwise_cons_cons (hxy : R x y) (h : (y :: ys).Pairwise R) :
    (x :: y :: ys).Pairwise R := by
  refine List.pairwise_cons.mpr ⟨List.forall_mem_cons.mpr ⟨hxy, fun z hz => ?_⟩, h⟩
  exact htrans hxy (List.rel_of_pairwise_cons h hz)

/-- What is before the first element of a run in order is before all of it. -/
theorem rel_of_rel_head (hxy : R x y) (h : (y :: ys).Pairwise R) : ∀ z ∈ y :: ys, R x z :=
  (List.pairwise_cons.mp (pairwise_cons_cons htrans hxy h)).1

/-- What is behind the last element of a run in order is behind all of it. -/
theorem rel_of_rel_getLast (h : xs.Pairwise R) (hx : xs.getLast? = some x) (hxy : R x y) :
    ∀ z ∈ xs, R z y := by
  obtain ⟨zs, rfl⟩ := List.getLast?_eq_some_iff.mp hx
  intro z hz
  rcases List.mem_append.mp hz with hz | hz
  · exact htrans ((List.pairwise_append.mp h).2.2 z hz x (List.mem_singleton_self x)) hxy
  · rw [List.mem_singleton.mp hz]
    exact hxy

omit htrans in
theorem rel_take_drop {k : Nat} (h : xs.Pairwise R) : ∀ x ∈ xs.take k, ∀ y ∈ xs.drop k, R x y := by
  rw [← List.take_append_drop k xs] at h
  exact (List.pairwise_append.mp h).2.2

theorem takeRun_gives (down : Bool) (previous : α) (xs : List α)
    (h : (previous :: xs).Pairwise fun x y => less y x = .ok down → R x y) :
    Gives (fun r => r.1 ++ r.2 = xs ∧ (previous :: r.1).Pairwise R)
      (takeRun less down previous xs) := by
  induction xs generalizing previous with
  | nil => exact .ok ⟨rfl, List.pairwise_singleton R previous⟩
  | cons x xs ih =>
    refine Gives.self.bind fun c hc => ?_
    split_ifs with hdown
    · obtain rfl := eq_of_beq hdown
      have hstep : R previous x := List.rel_of_pairwise_cons h List.mem_cons_self hc
      refine (ih x h.of_cons).bind fun r hr => .ok ⟨?_, pairwise_cons_cons htrans hstep hr.2⟩
      rw [List.cons_append, hr.1]
    · exact .ok ⟨rfl, List.pairwise_singleton R previous⟩

theorem naturalRun_gives (xs : List α) (h : xs.Pairwise (Decides less R)) :
    Gives (fun r => ∃ front, front ++ r.2 = xs ∧ (xs ≠ [] → front ≠ []) ∧ InOrder R front r.1)
      (naturalRun less xs) := by
  match xs with
  | [] => exact .ok ⟨[], rfl, nofun, .refl _, .nil⟩
  | [x] => exact .ok ⟨[x], rfl, fun _ => nofun, .refl _, List.pairwise_singleton R x⟩
  | x :: y :: zs =>
    refine Gives.self.bind fun down hdown => ?_
    have hfirst : Decides less R x y := List.rel_of_pairwise_cons h List.mem_cons_self
    cases down with
    | true =>
      -- a falling front is in the opposite order
      have hfalling : (y :: zs).Pairwise fun x y => less y x = .ok true → R y x :=
        h.of_cons.imp fun hxy => hxy.above
      refine (takeRun_gives (R := fun x y => R y x) (fun _ _ _ hxy hyz => htrans hyz hxy) true y zs
        hfalling).bind fun r hr => ?_
      refine .ok ⟨x :: y :: r.1, by simp [hr.1], fun _ => nofun, List.reverse_perm _, ?_⟩
      exact List.pairwise_reverse.mpr
        (pairwise_cons_cons (R := fun x y => R y x) (fun _ _ _ hxy hyz => htrans hyz hxy)
          (hfirst.above hdown) hr.2)
    | false =>
      have hrising : (y :: zs).Pairwise fun x y => less y x = .ok false → R x y :=
        h.of_cons.imp fun hxy => hxy.notAbove
      refine (takeRun_gives htrans false y zs hrising).bind fun r hr => ?_
      exact .ok ⟨x :: y :: r.1, by simp [hr.1], fun _ => nofun, .refl _,
        pairwise_cons_cons htrans (hfirst.notAbove hdown) hr.2⟩

/-- The elements of a run in order that are not above `y`, and those that are. -/
theorem leading_notAbove_gives (mirrored : Bool) (hxs : xs.Pairwise R)
    (h : ∀ x ∈ xs, Decides less R x y) :
    Gives (fun k => (∀ x ∈ xs.take k, R x y) ∧ ∀ x ∈ xs.drop k, R y x)
      (leading mirrored (notAbove less · y) xs) :=
  leading_gives (fun x hx hp => (h x hx).notAbove (notAbove_eq_ok hp))
    (fun x hx hp => (h x hx).above (notAbove_eq_ok hp))
    (hxs.imp fun hxz hz => htrans hxz hz) (hxs.imp fun hxz hx => htrans hx hxz) mirrored

theorem insert_gives (hxs : xs.Pairwise R) (h : ∀ y ∈ xs, Decides less R y x) :
    Gives (InOrder R (x :: xs)) (insert less x xs) := by
  have hbisect := bisect_ask_gives (p := fun y => notAbove less y x) (L := fun y => R y x) (U := R x)
    (fun y hy hp => (h y hy).notAbove (notAbove_eq_ok hp))
    (fun y hy hp => (h y hy).above (notAbove_eq_ok hp))
    (hxs.imp fun hyz hz => htrans hyz hz) (hxs.imp fun hyz hy => htrans hy hyz) false
  refine hbisect.bind fun k ⟨hbelow, habove⟩ => .ok ⟨?_, ?_⟩
  · calc xs.take k ++ x :: xs.drop k
      _ |>.Perm (x :: (xs.take k ++ xs.drop k)) := List.perm_middle
      _ |>.Perm (x :: xs) := by rw [List.take_append_drop]
  · refine List.pairwise_append.mpr ⟨hxs.take, List.pairwise_cons.mpr ⟨habove, hxs.drop⟩, ?_⟩
    intro y hy z hz
    rcases List.mem_cons.mp hz with rfl | hz
    · exact hbelow y hy
    · exact htrans (hbelow y hy) (habove z hz)

theorem insertAll_gives {sorted : List α} (hsorted : sorted.Pairwise R)
    (hxs : xs.Pairwise (Decides less R)) (h : ∀ x ∈ sorted, ∀ y ∈ xs, Decides less R x y) :
    Gives (InOrder R (sorted ++ xs)) (insertAll less sorted xs) := by
  induction xs generalizing sorted with
  | nil => exact .ok ⟨by rw [List.append_nil], hsorted⟩
  | cons x xs ih =>
    obtain ⟨hx, hxs⟩ := List.pairwise_cons.mp hxs
    have hinsert := insert_gives htrans (x := x) hsorted fun y hy => h y hy x List.mem_cons_self
    refine hinsert.bind fun sorted' hsorted' => ?_
    refine (ih hsorted'.ordered hxs fun y hy z hz => ?_).mono fun all hall => ⟨?_, hall.ordered⟩
    · rcases List.mem_cons.mp (hsorted'.perm.mem_iff.mp hy) with rfl | hy
      · exact hx z hz
      · exact h y hy z (List.mem_cons_of_mem x hz)
    · calc all
        _ |>.Perm (sorted' ++ xs) := hall.perm
        _ |>.Perm (x :: sorted ++ xs) := hsorted'.perm.append_right xs
        _ |>.Perm (sorted ++ x :: xs) := List.perm_middle.symm

/-- The next run is a front of the list in order, and not an empty one. -/
theorem nextRun_gives (least : Nat) (xs : List α) (h : xs.Pairwise (Decides less R)) :
    Gives (fun r => ∃ front, front ++ r.2 = xs ∧ (xs ≠ [] → front ≠ []) ∧ InOrder R front r.1)
      (nextRun less least xs) := by
  refine (naturalRun_gives htrans xs h).bind fun r ⟨front, hfront, hne, hrun⟩ => ?_
  obtain ⟨run, rest⟩ := r
  subst hfront
  obtain ⟨-, hrest, hcross⟩ := List.pairwise_append.mp h
  refine (insertAll_gives htrans hrun.ordered hrest.take fun x hx y hy =>
    hcross x (hrun.perm.mem_iff.mp hx) y (List.mem_of_mem_take hy)).bind fun all hall => .ok ?_
  refine ⟨front ++ rest.take (least - run.length), ?_, fun hxs => ?_, ?_, hall.ordered⟩
  · rw [List.append_assoc, List.take_append_drop]
  · exact fun hnil => hne hxs (List.append_eq_nil_iff.mp hnil).1
  · exact hall.perm.trans (hrun.perm.append_right _)

end Runs
end ChatTemplate.Sorting
