import ChatTemplate.Proofs.Sorting.Errors
import ChatTemplate.Proofs.Sorting.Merging
import ChatTemplate.Proofs.Sorting.Renaming
import Mathlib.Data.List.Perm.Basic
import Mathlib.Order.Lattice

/-!
# Sorts are stable

Merging neighbouring runs keeps all runs together a permutation of the list, each in order, and the
elements of an earlier run before those of a later one as far as comparisons are concerned
(`Sorting.Stacked`). So a sort answers the list in order (`Sorting.sort_gives`). Where the
comparison is that of keys in a linear order, the sort answers, and elements with the same key keep
their places relative to each other (`Sorting.sort_stable`): the order that tells them apart by
their places is one that the sort gives.
-/

namespace ChatTemplate.Sorting
variable {ε α κ : Type} {less : α → α → Except ε Bool} {R : α → α → Prop} {all xs last : List α}
  {runs front rest : List (List α)} {a b : List α}

/-! ### The runs of a list -/

/-- The runs, the last one first, are the elements of `all`. Each is in order, and comparing an
element with one of an earlier run puts the two into order. -/
structure Stacked (less : α → α → Except ε Bool) (R : α → α → Prop) (all : List α)
    (runs : List (List α)) : Prop where
  perm : runs.flatten.Perm all
  ordered : ∀ run ∈ runs, run.Pairwise R
  decides : runs.Pairwise fun b a => ∀ x ∈ a, ∀ y ∈ b, Decides less R x y

namespace Stacked

theorem merged {c : List α} (h : Stacked less R all (front ++ b :: a :: rest))
    (hc : InOrder R (a ++ b) c) : Stacked less R all (front ++ c :: rest) where
  perm := by
    refine List.Perm.trans ?_ h.perm
    simp only [List.flatten_append, List.flatten_cons]
    refine List.Perm.append_left _ ?_
    calc c ++ rest.flatten
      _ |>.Perm (a ++ b ++ rest.flatten) := hc.perm.append_right _
      _ |>.Perm (b ++ a ++ rest.flatten) := List.perm_append_comm.append_right _
      _ |>.Perm (b ++ (a ++ rest.flatten)) := by rw [List.append_assoc]
  ordered := by
    intro run hrun
    have hsub : run = c ∨ run ∈ front ++ b :: a :: rest := by
      rcases List.mem_append.mp hrun with hrun | hrun
      · exact .inr (List.mem_append_left _ hrun)
      · rcases List.mem_cons.mp hrun with hrun | hrun
        · exact .inl hrun
        · exact .inr (List.mem_append_right _ (by simp [hrun]))
    rcases hsub with rfl | hsub
    · exact hc.ordered
    · exact h.ordered run hsub
  decides := by
    obtain ⟨hfront, hrest, hcross⟩ := List.pairwise_append.mp h.decides
    obtain ⟨hb, hrest⟩ := List.pairwise_cons.mp hrest
    obtain ⟨ha, hrest⟩ := List.pairwise_cons.mp hrest
    refine List.pairwise_append.mpr ⟨hfront, List.pairwise_cons.mpr ⟨?_, hrest⟩, ?_⟩
    · intro run hrun x hx y hy
      rcases List.mem_append.mp (hc.perm.mem_iff.mp hy) with hy | hy
      · exact ha run hrun x hx y hy
      · exact hb run (List.mem_cons_of_mem a hrun) x hx y hy
    · intro run hrun later hlater x hx y hy
      rcases List.mem_cons.mp hlater with rfl | hlater
      · rcases List.mem_append.mp (hc.perm.mem_iff.mp hx) with hx | hx
        · exact hcross run hrun a (by simp) x hx y hy
        · exact hcross run hrun b List.mem_cons_self x hx y hy
      · exact hcross run hrun later (by simp [hlater]) x hx y hy

theorem push {xs run : List α} (h : Stacked less R all runs) (hrun : InOrder R xs run)
    (hcross : ∀ x ∈ all, ∀ y ∈ xs, Decides less R x y) :
    Stacked less R (all ++ xs) (run :: runs) where
  perm := (hrun.perm.append h.perm).trans List.perm_append_comm
  ordered := List.forall_mem_cons.mpr ⟨hrun.ordered, h.ordered⟩
  decides := by
    refine List.pairwise_cons.mpr ⟨fun earlier hearlier x hx y hy => ?_, h.decides⟩
    exact hcross x (h.perm.mem_iff.mp (List.mem_flatten_of_mem hearlier hx)) y
      (hrun.perm.mem_iff.mp hy)

theorem single (h : Stacked less R all [last]) : InOrder R all last :=
  ⟨by simpa using h.perm, h.ordered last (List.mem_singleton_self last)⟩

end Stacked

section WholeSort
variable (htrans : ∀ ⦃x y z⦄, R x y → R y z → R x z)
include htrans

theorem Stacked.merge_gives (front : List (List α))
    (h : Stacked less R all (front ++ b :: a :: rest)) :
    SorterGives (fun c => Stacked less R all (front ++ c :: rest)) (merge less a b) := by
  have hdecides := (List.pairwise_append.mp h.decides).2.1
  have hmerge := Sorting.merge_gives htrans (h.ordered a (by simp)) (h.ordered b (by simp))
    ((List.pairwise_cons.mp hdecides).1 a List.mem_cons_self)
  exact hmerge.mono fun c hc => h.merged hc

theorem mergeAbove_gives (p : Nat) (pending : Pending α) (last : List α)
    (h : Stacked less R all (last :: pending.map Prod.fst)) :
    SorterGives (fun r => Stacked less R all (r.2 :: r.1.map Prod.fst))
      (mergeAbove less p pending last) := by
  induction pending generalizing last with
  | nil => exact .pure h
  | cons head pending ih =>
    unfold mergeAbove
    split_ifs
    · exact (Stacked.merge_gives htrans [] h).bind ih
    · exact .pure h

theorem mergeAll_gives (pending : Pending α) (last : List α)
    (h : Stacked less R all (last :: pending.map Prod.fst)) :
    SorterGives (InOrder R all) (mergeAll less pending last) := by
  fun_induction mergeAll less pending last with
  | case1 last => exact .pure h.single
  | case2 run q last =>
    have hmerge := Stacked.merge_gives htrans [] h
    exact hmerge.mono fun _ hmerged => hmerged.single
  | case3 run q before q' rest last hlt ih =>
    exact (Stacked.merge_gives htrans [last] h).bind ih
  | case4 run q before q' rest last hlt ih =>
    exact (Stacked.merge_gives htrans [] h).bind ih

theorem sortRuns_gives (n m : Nat) (pending : Pending α) (start : Nat) (last xs : List α)
    (h : Stacked less R all (last :: pending.map Prod.fst)) (hxs : xs.Pairwise (Decides less R))
    (hcross : ∀ x ∈ all, ∀ y ∈ xs, Decides less R x y) (hm : xs.length ≤ m) :
    SorterGives (InOrder R (all ++ xs)) (sortRuns less n m pending start last xs) := by
  induction m generalizing all pending start last xs with
  | zero =>
    rw [List.eq_nil_of_length_eq_zero (Nat.le_zero.mp hm), List.append_nil]
    exact mergeAll_gives htrans pending last h
  | succ m ih =>
    cases xs with
    | nil =>
      rw [List.append_nil]
      exact mergeAll_gives htrans pending last h
    | cons x xs =>
      refine .bind (.lift (nextRun_gives htrans _ _ hxs)) fun r ⟨front, hfront, hne, hrun⟩ => ?_
      obtain ⟨run, rest⟩ := r
      dsimp only at hfront hrun ⊢
      refine (mergeAbove_gives htrans _ _ _ h).bind fun merged hmerged => ?_
      have hlen : rest.length ≤ m := by
        have := congrArg List.length hfront
        have := List.length_pos_iff.mpr (hne (List.cons_ne_nil x xs))
        simp only [List.length_append, List.length_cons] at *
        omega
      rw [← hfront] at hxs hcross ⊢
      obtain ⟨-, hrest, hfrontRest⟩ := List.pairwise_append.mp hxs
      rw [← List.append_assoc]
      refine ih _ _ run rest (hmerged.push hrun fun u hu v hv => ?_) hrest (fun u hu v hv => ?_) hlen
      · exact hcross u hu v (List.mem_append_left rest hv)
      · rcases List.mem_append.mp hu with hu | hu
        · exact hcross u hu v (List.mem_append_right front hv)
        · exact hfrontRest u hu v hv

/-- What a sort answers is the list in order, whatever the comparison, as long as each of its answers
puts the two elements that it is about into the order. -/
theorem sort_gives (xs : List α) (h : xs.Pairwise (Decides less R)) :
    Gives (InOrder R xs) (sort less xs) := by
  refine (nextRun_gives htrans _ xs h).bind fun r ⟨front, hfront, _, hrun⟩ => ?_
  subst hfront
  obtain ⟨-, hrest, hcross⟩ := List.pairwise_append.mp h
  have hstart : Stacked less R front [r.1] :=
    ⟨by simpa using hrun.perm, by simpa using hrun.ordered, List.pairwise_singleton _ _⟩
  exact (sortRuns_gives htrans _ _ [] 0 _ _ hstart hrest hcross (Nat.le_refl _) worthwhile).bind
    fun _ hsorted => .ok hsorted

end WholeSort

/-- A sort answers where all comparisons of its elements do. -/
theorem exists_sort_eq_ok (h : ∀ x ∈ xs, ∀ y ∈ xs, ∃ c, less x y = .ok c) :
    ∃ ys, sort less xs = .ok ys := by
  have hless (x y : {x // x ∈ xs}) : Fails (fun _ => False) (renamed less Subtype.val x y) := by
    obtain ⟨c, hc⟩ := h x.1 x.2 y.1 y.2
    rw [renamed, hc]
    exact .ok
  rw [← List.attach_map_subtype_val xs, sort_map]
  cases hsort : sort (renamed less Subtype.val) xs.attach with
  | ok ys => exact ⟨ys.map Subtype.val, rfl⟩
  | error e => exact (sort_fails hless xs.attach e hsort).elim

/-! ### Keys -/

/-- `ys` are the elements of `xs` by their keys, those of one key in the order that they had. -/
structure StablySorted [LinearOrder κ] (key : α → κ) (xs ys : List α) : Prop where
  perm : ys.Perm xs
  ordered : ys.Pairwise fun x y => key x ≤ key y
  stable : ∀ k, ys.filter (key · = k) = xs.filter (key · = k)

section Keys
variable [LinearOrder κ] {key : α → κ}

/-- The order of elements with their places: by the key, and by the place where that is the same. -/
def Sooner (key : α → κ) (x y : α × Nat) : Prop :=
  key x.1 < key y.1 ∨ key x.1 = key y.1 ∧ x.2 < y.2

theorem Sooner.trans ⦃x y z : α × Nat⦄ (hxy : Sooner key x y) (hyz : Sooner key y z) :
    Sooner key x z := by
  rcases hxy with hxy | ⟨hxy, hxy'⟩ <;> rcases hyz with hyz | ⟨hyz, hyz'⟩
  · exact .inl (lt_trans hxy hyz)
  · exact .inl (hyz ▸ hxy)
  · exact .inl (hxy ▸ hyz)
  · exact .inr ⟨hxy.trans hyz, Nat.lt_trans hxy' hyz'⟩

theorem pairwise_zipIdx (xs : List α) : xs.zipIdx.Pairwise fun x y => x.2 < y.2 := by
  have hplaces := List.pairwise_lt_range' (s := 0) (n := xs.length)
  rwa [← List.zipIdx_map_snd, List.pairwise_map] at hplaces

theorem fst_mem_of_mem_zipIdx {x : α × Nat} (hx : x ∈ xs.zipIdx) : x.1 ∈ xs := by
  rw [← List.zipIdx_map_fst 0 xs]
  exact List.mem_map_of_mem hx

/-- With its place each element is a different one, and comparing goes by `Sooner`. -/
theorem decides_zipIdx (h : ∀ x ∈ xs, ∀ y ∈ xs, less x y = .ok (decide (key x < key y))) :
    xs.zipIdx.Pairwise (Decides (renamed less Prod.fst) (Sooner key)) := by
  refine (pairwise_zipIdx xs).imp_of_mem fun {x y} hx hy hlt => ?_
  have hless : renamed less Prod.fst y x = .ok (decide (key y.1 < key x.1)) :=
    h y.1 (fst_mem_of_mem_zipIdx hy) x.1 (fst_mem_of_mem_zipIdx hx)
  constructor <;> intro hanswer
  · exact .inl (of_decide_eq_true (Except.ok.inj (hless.symm.trans hanswer)))
  · have hle := le_of_not_gt (of_decide_eq_false (Except.ok.inj (hless.symm.trans hanswer)))
    exact (lt_or_eq_of_le hle).imp id fun heq => ⟨heq, hlt⟩

/-- Elements in the order of keys and places are sorted, and those of one key as they were. -/
theorem InOrder.stablySorted {places : List (α × Nat)} (h : InOrder (Sooner key) xs.zipIdx places) :
    StablySorted key xs (places.map Prod.fst) where
  perm := by simpa only [List.zipIdx_map_fst] using h.perm.map Prod.fst
  ordered := by
    refine List.pairwise_map.mpr (h.ordered.imp fun hxy => ?_)
    exact hxy.elim le_of_lt fun hxy => le_of_eq hxy.1
  stable k := by
    have hrising : (places.filter ((key · = k) ∘ Prod.fst)).Pairwise fun x y => x.2 < y.2 := by
      refine (h.ordered.filter _).imp_of_mem fun {x y} hx hy hxy => ?_
      have hx : key x.1 = k := of_decide_eq_true (List.mem_filter.mp hx).2
      have hy : key y.1 = k := of_decide_eq_true (List.mem_filter.mp hy).2
      rcases hxy with hlt | ⟨-, hlt⟩
      · rw [hx, hy] at hlt
        exact absurd hlt (lt_irrefl k)
      · exact hlt
    have hfilter : places.filter ((key · = k) ∘ Prod.fst) =
        xs.zipIdx.filter ((key · = k) ∘ Prod.fst) :=
      List.Perm.eq_of_pairwise (fun x y _ _ hxy hyx => absurd hxy (Nat.lt_asymm hyx)) hrising
        ((pairwise_zipIdx xs).filter _) (h.perm.filter _)
    rw [List.filter_map, hfilter, ← List.filter_map, List.zipIdx_map_fst]

/-- Sorting by keys answers, and keeps the order of elements with the same key. -/
theorem sort_stable (h : ∀ x ∈ xs, ∀ y ∈ xs, less x y = .ok (decide (key x < key y))) :
    ∃ ys, sort less xs = .ok ys ∧ StablySorted key xs ys := by
  obtain ⟨ys, hys⟩ := exists_sort_eq_ok fun x hx y hy => ⟨_, h x hx y hy⟩
  refine ⟨ys, hys, ?_⟩
  rw [← List.zipIdx_map_fst 0 xs, sort_map] at hys
  cases hsort : sort (renamed less Prod.fst) xs.zipIdx with
  | error e =>
    rw [hsort] at hys
    cases hys
  | ok places =>
    rw [hsort] at hys
    cases hys
    exact (sort_gives Sooner.trans xs.zipIdx (decides_zipIdx h) places hsort).stablySorted

end Keys
end ChatTemplate.Sorting
