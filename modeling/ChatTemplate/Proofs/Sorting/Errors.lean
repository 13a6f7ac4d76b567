import ChatTemplate.Sorting
import Mathlib.Tactic.SplitIfs

/-!
# What a sort fails with

A sort fails only where a comparison does, and with its error (`Sorting.sort_fails`).
-/

namespace ChatTemplate.Sorting
variable {ε α β : Type} {P : ε → Prop}

/-- Every error of the computation satisfies `P`. -/
def Fails (P : ε → Prop) (m : Except ε α) : Prop := ∀ e, m = .error e → P e

theorem Fails.ok {a : α} : Fails P (.ok a) := nofun

theorem Fails.bind {m : Except ε α} {f : α → Except ε β} (hm : Fails P m)
    (hf : ∀ a, Fails P (f a)) : Fails P (m >>= f) := by
  cases m with
  | ok a => exact hf a
  | error e =>
    rintro e' ⟨⟩
    exact hm e rfl

/-- Every error of the computation satisfies `P`, from whatever state it starts. -/
def SorterFails (P : ε → Prop) (m : Sorter ε α) : Prop := ∀ limit, Fails P (m limit)

theorem SorterFails.pure {a : α} : SorterFails P (Pure.pure a) := fun _ => .ok

theorem SorterFails.bind {m : Sorter ε α} {f : α → Sorter ε β} (hm : SorterFails P m)
    (hf : ∀ a, SorterFails P (f a)) : SorterFails P (m >>= f) :=
  fun limit => (hm limit).bind fun p => hf p.1 p.2

theorem SorterFails.lift {m : Except ε α} (hm : Fails P m) :
    SorterFails P (liftM m : Sorter ε α) :=
  fun _ => hm.bind fun _ => .ok

/-! ### Searches -/

theorem bisect_fails {p : Nat → Except ε Bool} (hp : ∀ i, Fails P (p i)) (mirrored : Bool)
    (low width : Nat) : Fails P (bisect mirrored p low width) := by
  fun_induction bisect mirrored p low width with
  | case1 => exact .ok
  | case2 low width hwidth half ihright ihleft =>
    refine (hp _).bind fun found => ?_
    cases found with
    | true => exact ihright
    | false => exact ihleft

theorem widen_fails {p : Nat → Except ε Bool} (hp : ∀ i, Fails P (p i)) (n low high : Nat) :
    Fails P (widen p n low high) := by
  fun_induction widen p n low high with
  | case1 low high hhigh ih =>
    refine (hp _).bind fun found => ?_
    cases found with
    | true => exact ih
    | false => exact .ok
  | case2 => exact .ok

theorem gallop_fails {p : Nat → Except ε Bool} (hp : ∀ i, Fails P (p i)) (mirrored : Bool)
    (n : Nat) : Fails P (gallop mirrored p n) := by
  unfold gallop
  refine (hp 0).bind fun found => ?_
  cases found with
  | true => exact (widen_fails hp n 0 1).bind fun q => bisect_fails hp mirrored _ _
  | false => exact .ok

theorem ask_fails {p : α → Except ε Bool} (hp : ∀ x, Fails P (p x)) (xs : List α) (i : Nat) :
    Fails P (ask p xs i) := by
  unfold ask
  split
  · exact hp _
  · exact .ok

theorem leading_fails {p : α → Except ε Bool} (hp : ∀ x, Fails P (p x)) (mirrored : Bool)
    (xs : List α) : Fails P (leading mirrored p xs) :=
  gallop_fails (ask_fails hp xs) mirrored xs.length

/-! ### Runs -/

variable {less : α → α → Except ε Bool} (hless : ∀ x y, Fails P (less x y))
include hless

theorem notAbove_fails (x y : α) : Fails P (notAbove less x y) :=
  (hless y x).bind fun _ => .ok

theorem insertAll_fails (sorted xs : List α) : Fails P (insertAll less sorted xs) := by
  induction xs generalizing sorted with
  | nil => exact .ok
  | cons x xs ih =>
    have hinsert : Fails P (insert less x sorted) :=
      (bisect_fails (ask_fails (notAbove_fails hless · x) sorted) false 0 _).bind fun _ => .ok
    exact hinsert.bind fun _ => ih _

theorem takeRun_fails (down : Bool) (previous : α) (xs : List α) :
    Fails P (takeRun less down previous xs) := by
  induction xs generalizing previous with
  | nil => exact .ok
  | cons x xs ih =>
    refine (hless x previous).bind fun c => ?_
    split_ifs
    · exact (ih x).bind fun _ => .ok
    · exact .ok

theorem nextRun_fails (least : Nat) (xs : List α) : Fails P (nextRun less least xs) := by
  have hnatural : Fails P (naturalRun less xs) := by
    match xs with
    | [] | [x] => exact .ok
    | x :: y :: zs =>
      exact (hless y x).bind fun down => (takeRun_fails hless down y zs).bind fun _ => .ok
  exact hnatural.bind fun run => (insertAll_fails hless _ _).bind fun _ => .ok

/-! ### Merging -/

theorem gallopFirst_fails (mirrored : Bool) (m : Merging α) :
    Fails P (gallopFirst mirrored less m) := by
  unfold gallopFirst
  split
  · split_ifs
    · exact .ok
    · exact (leading_fails (fun x => (hless _ x).bind fun _ => .ok) mirrored _).bind fun _ => .ok
  · exact .ok

theorem gallopSecond_fails (mirrored : Bool) (m : Merging α) :
    Fails P (gallopSecond mirrored less m) := by
  unfold gallopSecond
  split
  · split_ifs
    · exact .ok
    · exact (leading_fails (fun y => hless y _) mirrored _).bind fun _ => .ok
  · exact .ok

theorem gallopBoth_fails (mirrored : Bool) (m : Merging α) :
    Fails P (gallopBoth mirrored less m) := by
  unfold gallopBoth
  split_ifs
  · exact (gallopSecond_fails hless mirrored m).bind fun q =>
      (gallopFirst_fails hless mirrored q.1).bind fun _ => .ok
  · exact (gallopFirst_fails hless mirrored m).bind fun q =>
      (gallopSecond_fails hless mirrored q.1).bind fun _ => .ok

theorem mergeRounds_fails (mirrored : Bool) (n : Nat) (pace : Pace) (limit : Nat) (m : Merging α) :
    Fails P (mergeRounds mirrored less n pace limit m) := by
  induction n generalizing pace limit m with
  | zero => exact .ok
  | succ n ih =>
    unfold mergeRounds
    split_ifs
    · exact .ok
    · split
      · exact (hless _ _).bind fun second => ih _ _ _
      · refine (gallopBoth_fails hless mirrored m).bind fun q => ?_
        dsimp only
        split_ifs
        · exact .ok
        · exact ih _ _ _
        · exact ih _ _ _

theorem mergeOverlap_fails (a b : List α) : SorterFails P (mergeOverlap less a b) := by
  intro limit
  unfold mergeOverlap
  split_ifs
  · exact mergeRounds_fails hless false _ _ limit _
  · have hflipped (x y : α) : Fails P (less y x) := hless y x
    exact (mergeRounds_fails hflipped true _ _ limit _).bind fun _ => .ok

theorem merge_fails (a b : List α) : SorterFails P (merge less a b) := by
  unfold merge
  split
  · exact .pure
  · refine .bind (.lift (leading_fails (notAbove_fails hless · _) false a)) fun k => ?_
    split
    · exact .pure
    · refine .bind (.lift (leading_fails (notAbove_fails hless _) true _)) fun j => ?_
      dsimp only
      split_ifs
      · exact .pure
      · exact (mergeOverlap_fails hless _ _).bind fun _ => .pure

theorem mergeAbove_fails (p : Nat) (pending : Pending α) (last : List α) :
    SorterFails P (mergeAbove less p pending last) := by
  induction pending generalizing last with
  | nil => exact .pure
  | cons head rest ih =>
    unfold mergeAbove
    split_ifs
    · exact (merge_fails hless _ _).bind fun _ => ih _
    · exact .pure

theorem mergeAll_fails (pending : Pending α) (last : List α) :
    SorterFails P (mergeAll less pending last) := by
  fun_induction mergeAll less pending last with
  | case1 => exact .pure
  | case2 => exact merge_fails hless _ _
  | case3 _ _ _ _ _ _ _ ih => exact (merge_fails hless _ _).bind fun _ => ih _
  | case4 _ _ _ _ _ _ _ ih => exact (merge_fails hless _ _).bind fun _ => ih _

theorem sortRuns_fails (n m : Nat) (pending : Pending α) (start : Nat) (last xs : List α) :
    SorterFails P (sortRuns less n m pending start last xs) := by
  induction m generalizing pending start last xs with
  | zero => exact mergeAll_fails hless pending last
  | succ m ih =>
    cases xs with
    | nil => exact mergeAll_fails hless pending last
    | cons x xs =>
      refine .bind (.lift (nextRun_fails hless _ _)) fun run => ?_
      exact (mergeAbove_fails hless _ _ _).bind fun merged => ih _ _ _ _

/-- A sort fails with an error of a comparison. -/
theorem sort_fails (xs : List α) : Fails P (sort less xs) :=
  (nextRun_fails hless _ xs).bind fun _ =>
    (sortRuns_fails hless _ _ _ _ _ _ worthwhile).bind fun _ => .ok

end ChatTemplate.Sorting
