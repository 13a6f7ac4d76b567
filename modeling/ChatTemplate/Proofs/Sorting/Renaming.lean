import ChatTemplate.Sorting
import Mathlib.Data.List.Forall2

/-!
# Sorting renamed elements

A sort looks at elements only by comparing them. So it makes no difference whether the elements are
renamed before they are sorted or after (`Sorting.sort_map`), and lists whose elements compare alike
are sorted alike (`Sorting.sort_forall₂`).
-/

namespace ChatTemplate.Sorting
variable {ε α β γ : Type} (less : α → α → Except ε Bool) (f : γ → α)

/-- Comparing elements by their new names. -/
def renamed (x y : γ) : Except ε Bool := less (f x) (f y)

/-! ### Searches and runs -/

theorem ask_map (p : α → Except ε Bool) (xs : List γ) : ask p (xs.map f) = ask (p ∘ f) xs := by
  funext i
  unfold ask
  rw [List.getElem?_map]
  cases xs[i]? <;> rfl

theorem leading_map (mirrored : Bool) (p : α → Except ε Bool) (xs : List γ) :
    leading mirrored p (xs.map f) = leading mirrored (p ∘ f) xs := by
  unfold leading
  rw [ask_map, List.length_map]

theorem insert_map (x : γ) (xs : List γ) :
    insert less (f x) (xs.map f) = List.map f <$> insert (renamed less f) x xs := by
  unfold insert
  rw [ask_map, List.length_map, map_bind]
  exact bind_congr fun k => by simp

theorem insertAll_map (sorted xs : List γ) :
    insertAll less (sorted.map f) (xs.map f) =
      List.map f <$> insertAll (renamed less f) sorted xs := by
  induction xs generalizing sorted with
  | nil => rfl
  | cons x xs ih =>
    simp only [List.map_cons, insertAll, insert_map, bind_map_left, map_bind]
    exact bind_congr ih

theorem takeRun_map (down : Bool) (previous : γ) (xs : List γ) :
    takeRun less down (f previous) (xs.map f) =
      Prod.map (List.map f) (List.map f) <$> takeRun (renamed less f) down previous xs := by
  induction xs generalizing previous with
  | nil => rfl
  | cons x xs ih =>
    simp only [List.map_cons, takeRun, map_bind]
    refine bind_congr fun c => ?_
    split
    · rw [ih, bind_map_left, map_bind]
      exact bind_congr fun run => by simp
    · simp

theorem naturalRun_map (xs : List γ) :
    naturalRun less (xs.map f) =
      Prod.map (List.map f) (List.map f) <$> naturalRun (renamed less f) xs := by
  match xs with
  | [] => rfl
  | [x] => rfl
  | x :: y :: zs =>
    simp only [List.map_cons, naturalRun, map_bind, takeRun_map, bind_map_left]
    refine bind_congr fun down => bind_congr fun run => ?_
    cases down <;> simp

theorem nextRun_map (least : Nat) (xs : List γ) :
    nextRun less least (xs.map f) =
      Prod.map (List.map f) (List.map f) <$> nextRun (renamed less f) least xs := by
  unfold nextRun
  simp only [naturalRun_map, bind_map_left, map_bind, Prod.map_fst, Prod.map_snd, List.length_map,
    ← List.map_take, ← List.map_drop, insertAll_map]
  exact bind_congr fun run => bind_congr fun sorted => by simp

/-! ### Merging -/

/-- A merging of the renamed elements. -/
def Merging.map (m : Merging γ) : Merging α := ⟨m.first.map f, m.second.map f, m.merged.map f⟩

@[simp] theorem Merging.takeFirst_map (m : Merging γ) (k : Nat) :
    (m.map f).takeFirst k = (m.takeFirst k).map f := by
  simp [Merging.map, Merging.takeFirst, List.reverseAux_eq]

@[simp] theorem Merging.takeSecond_map (m : Merging γ) (k : Nat) :
    (m.map f).takeSecond k = (m.takeSecond k).map f := by
  simp [Merging.map, Merging.takeSecond, List.reverseAux_eq]

@[simp] theorem Merging.settled_map (m : Merging γ) : (m.map f).settled = m.settled := by
  simp [Merging.map, Merging.settled, ← List.map_tail]

@[simp] theorem Merging.finish_map (m : Merging γ) : (m.map f).finish = m.finish.map f := by
  simp [Merging.map, Merging.finish, List.reverseAux_eq]

theorem gallopFirst_map (mirrored : Bool) (m : Merging γ) :
    gallopFirst mirrored less (m.map f) =
      Prod.map (Merging.map f) id <$> gallopFirst mirrored (renamed less f) m := by
  have hfirst : (m.map f).first = m.first.map f := rfl
  have hsecond : (m.map f).second = m.second.map f := rfl
  unfold gallopFirst
  rw [hsecond, Merging.settled_map]
  cases m.second with
  | nil => rfl
  | cons y ys =>
    rw [List.map_cons]
    dsimp only
    by_cases hm : m.settled = true
    · rw [if_pos hm, if_pos hm]
      rfl
    rw [if_neg hm, if_neg hm, hfirst, leading_map, map_bind]
    refine bind_congr fun k => ?_
    simp only [Merging.takeFirst_map, Merging.settled_map, Merging.takeSecond_map, map_pure]
    split <;> rfl

theorem gallopSecond_map (mirrored : Bool) (m : Merging γ) :
    gallopSecond mirrored less (m.map f) =
      Prod.map (Merging.map f) id <$> gallopSecond mirrored (renamed less f) m := by
  have hsecond : (m.map f).second = m.second.map f := rfl
  have hfirst : (m.map f).first = m.first.map f := rfl
  unfold gallopSecond
  rw [hfirst, Merging.settled_map]
  cases m.first with
  | nil => rfl
  | cons y ys =>
    rw [List.map_cons]
    dsimp only
    by_cases hm : m.settled = true
    · rw [if_pos hm, if_pos hm]
      rfl
    rw [if_neg hm, if_neg hm, hsecond, leading_map, map_bind]
    refine bind_congr fun k => ?_
    simp only [Merging.takeSecond_map, Merging.settled_map, Merging.takeFirst_map, map_pure]
    split <;> rfl

theorem gallopBoth_map (mirrored : Bool) (m : Merging γ) :
    gallopBoth mirrored less (m.map f) =
      Prod.map (Merging.map f) id <$> gallopBoth mirrored (renamed less f) m := by
  unfold gallopBoth
  split
  · simp only [gallopSecond_map, gallopFirst_map, bind_map_left, map_bind, Prod.map_fst,
      Prod.map_snd, id]
    rfl
  · simp only [gallopSecond_map, gallopFirst_map, bind_map_left, map_bind, Prod.map_fst,
      Prod.map_snd, id]
    rfl

theorem mergeRounds_map (mirrored : Bool) (n : Nat) (pace : Pace) (limit : Nat) (m : Merging γ) :
    mergeRounds mirrored less n pace limit (m.map f) =
      Prod.map (List.map f) id <$> mergeRounds mirrored (renamed less f) n pace limit m := by
  induction n generalizing pace limit m with
  | zero => simp [mergeRounds]
  | succ n ih =>
    have hgallop : (gallopBoth mirrored less (m.map f) >>= fun r =>
        if r.1.settled then return (r.1.finish, limit)
        else if worthwhile ≤ r.2.1 || worthwhile ≤ r.2.2 then
          mergeRounds mirrored less n .galloping (max 1 (limit - 1)) r.1
        else mergeRounds mirrored less n (.steady false 0) (limit + 1) r.1) =
      Prod.map (List.map f) id <$> (gallopBoth mirrored (renamed less f) m >>= fun r =>
        if r.1.settled then return (r.1.finish, limit)
        else if worthwhile ≤ r.2.1 || worthwhile ≤ r.2.2 then
          mergeRounds mirrored (renamed less f) n .galloping (max 1 (limit - 1)) r.1
        else mergeRounds mirrored (renamed less f) n (.steady false 0) (limit + 1) r.1) := by
      rw [gallopBoth_map, bind_map_left, map_bind]
      refine bind_congr fun r => ?_
      simp only [Prod.map_fst, Prod.map_snd, Merging.settled_map, Merging.finish_map, id, ih]
      split
      · simp
      · split <;> rfl
    simp only [mergeRounds, Merging.settled_map]
    split
    · simp only [Merging.finish_map]; rfl
    obtain ⟨first, second, merged⟩ := m
    rcases pace with ⟨winner, wins⟩ | _
    · rcases first with _ | ⟨x, xs⟩
      · exact hgallop
      rcases second with _ | ⟨y, ys⟩
      · exact hgallop
      dsimp only [Merging.map, List.map_cons]
      rw [map_bind]
      refine bind_congr fun c => ?_
      rw [← ih]
      cases c with
      | false => exact congrArg _ (Merging.takeFirst_map f ⟨x :: xs, y :: ys, merged⟩ 1)
      | true => exact congrArg _ (Merging.takeSecond_map f ⟨x :: xs, y :: ys, merged⟩ 1)
    · exact hgallop

theorem mergeFront_map (mirrored : Bool) (limit : Nat) (first second : List γ) :
    mergeFront mirrored less limit (first.map f) (second.map f) =
      Prod.map (List.map f) id <$> mergeFront mirrored (renamed less f) limit first second := by
  unfold mergeFront
  rw [← mergeRounds_map, ← Merging.takeSecond_map, List.length_map, List.length_map]
  rfl

theorem mergeOverlap_map (a b : List γ) :
    mergeOverlap less (a.map f) (b.map f) = List.map f <$> mergeOverlap (renamed less f) a b := by
  funext limit
  have hrun : (List.map f <$> mergeOverlap (renamed less f) a b) limit =
      Prod.map (List.map f) id <$> mergeOverlap (renamed less f) a b limit := StateT.run_map ..
  rw [hrun]
  simp only [mergeOverlap, List.length_map]
  split
  · exact mergeFront_map less f false limit a b
  · rw [← List.map_reverse, ← List.map_reverse, mergeFront_map, bind_map_left, map_bind]
    refine bind_congr fun r => ?_
    simp

theorem merge_map (a b : List γ) :
    merge less (a.map f) (b.map f) = List.map f <$> merge (renamed less f) a b := by
  unfold merge
  rw [List.head?_map]
  cases b.head? with
  | none => simp
  | some y =>
    simp only [Option.map_some, leading_map, map_bind]
    refine bind_congr fun k => ?_
    rw [← List.map_drop, List.getLast?_map]
    cases (a.drop k).getLast? with
    | none => simp
    | some x =>
      simp only [Option.map_some, ← List.map_reverse, leading_map, map_bind]
      refine bind_congr fun j => ?_
      simp only [List.length_map, ← List.map_take, ← List.map_drop, List.isEmpty_map]
      split
      · simp
      · simp only [mergeOverlap_map, bind_map_left, map_bind]
        refine bind_congr fun merged => ?_
        simp

/-! ### The whole sort -/

/-- The runs that wait, renamed. -/
def renamedRuns (pending : Pending γ) : Pending α := List.map (Prod.map (List.map f) id) pending

theorem mergeAbove_map (p : Nat) (pending : Pending γ) (last : List γ) :
    mergeAbove less p (renamedRuns f pending) (last.map f) =
      Prod.map (renamedRuns f) (List.map f) <$> mergeAbove (renamed less f) p pending last := by
  induction pending generalizing last with
  | nil => simp [renamedRuns, mergeAbove]
  | cons run pending ih =>
    obtain ⟨run, q⟩ := run
    have hcons : renamedRuns f ((run, q) :: pending) = (run.map f, q) :: renamedRuns f pending := rfl
    rw [hcons]
    simp only [mergeAbove]
    split
    · rw [merge_map, bind_map_left, map_bind]
      exact bind_congr ih
    · simp [hcons]

theorem mergeAll_map (pending : Pending γ) (last : List γ) :
    mergeAll less (renamedRuns f pending) (last.map f) =
      List.map f <$> mergeAll (renamed less f) pending last := by
  match pending with
  | [] => simp [renamedRuns, mergeAll]
  | [(run, q)] =>
    simp only [renamedRuns, List.map_cons, List.map_nil, Prod.map_apply, mergeAll]
    exact merge_map less f run last
  | (run, q) :: (before, q') :: rest =>
    have hcons : renamedRuns f ((run, q) :: (before, q') :: rest) =
      (run.map f, q) :: (before.map f, q') :: renamedRuns f rest := rfl
    rw [hcons, mergeAll, mergeAll, List.length_map, List.length_map]
    split
    · rw [merge_map, bind_map_left, map_bind]
      exact bind_congr fun merged => mergeAll_map ((merged, q') :: rest) last
    · rw [merge_map, bind_map_left, map_bind]
      exact bind_congr fun merged => mergeAll_map ((before, q') :: rest) merged
termination_by pending.length

theorem sortRuns_map (n m : Nat) (pending : Pending γ) (start : Nat) (last xs : List γ) :
    sortRuns less n m (renamedRuns f pending) start (last.map f) (xs.map f) =
      List.map f <$> sortRuns (renamed less f) n m pending start last xs := by
  induction m generalizing pending start last xs with
  | zero => exact mergeAll_map less f pending last
  | succ m ih =>
    cases xs with
    | nil => exact mergeAll_map less f pending last
    | cons x xs =>
      have hnext := nextRun_map less f (leastRun n 0) (x :: xs)
      rw [List.map_cons] at hnext
      have hlift : (liftM (Prod.map (List.map f) (List.map f) <$>
            nextRun (renamed less f) (leastRun n 0) (x :: xs)) : Sorter ε (List α × List α)) =
          Prod.map (List.map f) (List.map f) <$>
            (liftM (nextRun (renamed less f) (leastRun n 0) (x :: xs)) : Sorter ε _) :=
        liftM_map ..
      simp only [List.map_cons, sortRuns, hnext, hlift, map_bind, bind_map_left, Prod.map_fst,
        Prod.map_snd, List.length_map, mergeAbove_map]
      refine bind_congr fun run => bind_congr fun merged => ?_
      exact ih ((merged.2, power n start last.length run.1.length) :: merged.1) _ run.1 run.2

theorem sort_map (xs : List γ) : sort less (xs.map f) = List.map f <$> sort (renamed less f) xs := by
  unfold sort
  rw [nextRun_map, bind_map_left, map_bind, List.length_map]
  refine bind_congr fun run => ?_
  simp only [Prod.map_fst, Prod.map_snd, List.length_map]
  rw [show ([] : Pending α) = renamedRuns f [] from rfl, sortRuns_map]
  simp only [StateT.run'_eq, StateT.run_map, Functor.map_map]

/-- Sorting gives back elements of the list. -/
theorem mem_of_sort {less : α → α → Except ε Bool} {xs ys : List α} (h : sort less xs = .ok ys) :
    ∀ y ∈ ys, y ∈ xs := by
  rw [← List.attach_map_subtype_val xs, sort_map] at h
  cases hsorted : sort (renamed less fun x : {x // x ∈ xs} => x.1) xs.attach with
  | error e =>
    rw [hsorted] at h
    cases h
  | ok sorted =>
    rw [hsorted] at h
    cases h
    intro y hy
    obtain ⟨x, -, rfl⟩ := List.mem_map.mp hy
    exact x.2

/-- Lists whose elements compare alike are sorted alike, and fail alike. -/
theorem sort_forall₂ {less' : β → β → Except ε Bool} {R : α → β → Prop}
    (hless : ∀ a a' b b', R a b → R a' b' → less a a' = less' b b') {as : List α} {bs : List β}
    (h : List.Forall₂ R as bs) :
    (∃ e, sort less as = .error e ∧ sort less' bs = .error e) ∨
      ∃ as' bs', sort less as = .ok as' ∧ sort less' bs = .ok bs' ∧ List.Forall₂ R as' bs' := by
  -- both lists are one list of pairs, renamed in two ways
  obtain ⟨zs, rfl, rfl⟩ : ∃ zs : List {z : α × β // R z.1 z.2},
      as = zs.map (fun z => z.1.1) ∧ bs = zs.map (fun z => z.1.2) := by
    induction h with
    | nil => exact ⟨[], rfl, rfl⟩
    | @cons a b as bs hab _ ih =>
      obtain ⟨zs, rfl, rfl⟩ := ih
      exact ⟨⟨(a, b), hab⟩ :: zs, rfl, rfl⟩
  have hsame : renamed less (fun z : {z : α × β // R z.1 z.2} => z.1.1) =
      renamed less' (fun z => z.1.2) := by
    funext z z'
    exact hless _ _ _ _ z.2 z'.2
  rw [sort_map, sort_map, hsame]
  cases sort (renamed less' fun z : {z : α × β // R z.1 z.2} => z.1.2) zs with
  | error e => exact .inl ⟨e, rfl, rfl⟩
  | ok sorted =>
    refine .inr ⟨_, _, rfl, rfl, ?_⟩
    rw [List.forall₂_map_left_iff, List.forall₂_map_right_iff]
    exact List.forall₂_same.mpr fun z _ => z.2

end ChatTemplate.Sorting
