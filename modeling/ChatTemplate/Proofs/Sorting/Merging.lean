import ChatTemplate.Proofs.Sorting.Order
import Mathlib.Tactic.ByContra

/-!
# Merged runs are in order

While two runs are merged, what is merged so far comes before all that is left, and the last element
of the first run after all that is left of the second (`Merging.Sound`). Each round keeps that,
whether it takes one element or searches for many, and takes an element. A merge from behind is one
in the opposite order.
-/

namespace ChatTemplate.Sorting
variable {ε α : Type} {R : α → α → Prop} {all : List α} {m : Merging α} {k : Nat}

/-! ### What a round keeps -/

namespace Merging

/-- The number of elements that are not merged. -/
def size (m : Merging α) : Nat := m.first.length + m.second.length

theorem size_takeFirst_le (m : Merging α) (k : Nat) : (m.takeFirst k).size ≤ m.size := by
  simp only [size, takeFirst, List.length_drop]
  omega

theorem size_takeSecond_le (m : Merging α) (k : Nat) : (m.takeSecond k).size ≤ m.size := by
  simp only [size, takeSecond, List.length_drop]
  omega

theorem ne_nil_of_not_settled (h : ¬ m.settled) : m.first ≠ [] ∧ m.second ≠ [] := by
  obtain ⟨first, second, merged⟩ := m
  cases first <;> cases second <;> simp [settled] at h ⊢

theorem size_takeFirst_lt (h : m.first ≠ []) (hk : k ≠ 0) : (m.takeFirst k).size < m.size := by
  have := List.length_pos_iff.mpr h
  simp only [size, takeFirst, List.length_drop]
  omega

theorem size_takeSecond_lt (h : m.second ≠ []) (hk : k ≠ 0) : (m.takeSecond k).size < m.size := by
  have := List.length_pos_iff.mpr h
  simp only [size, takeSecond, List.length_drop]
  omega

/-- The elements are those of `all`, the parts are in order, and so is the end of the first run
behind the second. -/
structure Sound (R : α → α → Prop) (all : List α) (m : Merging α) : Prop where
  perm : (m.merged ++ (m.first ++ m.second)).Perm all
  merged : m.merged.reverse.Pairwise R
  first : m.first.Pairwise R
  second : m.second.Pairwise R
  behind : ∀ x ∈ m.merged, ∀ y ∈ m.first ++ m.second, R x y
  last : ∀ x ∈ m.first.getLast?, ∀ y ∈ m.second, R y x

namespace Sound

theorem takeFirst (h : m.Sound R all) (hk : ∀ x ∈ m.first.take k, ∀ y ∈ m.second, R x y) :
    (m.takeFirst k).Sound R all where
  perm := by
    refine List.Perm.trans ?_ h.perm
    rw [Merging.takeFirst, List.reverseAux_eq, List.append_assoc]
    calc (m.first.take k).reverse ++ (m.merged ++ (m.first.drop k ++ m.second))
      _ |>.Perm (m.first.take k ++ (m.merged ++ (m.first.drop k ++ m.second))) :=
        (List.reverse_perm _).append_right _
      _ |>.Perm (m.merged ++ (m.first.take k ++ (m.first.drop k ++ m.second))) :=
        List.perm_append_comm_assoc _ _ _
      _ |>.Perm (m.merged ++ (m.first ++ m.second)) := by
        rw [← List.append_assoc (m.first.take k), List.take_append_drop]
  merged := by
    rw [Merging.takeFirst, List.reverseAux_eq, List.reverse_append, List.reverse_reverse]
    refine List.pairwise_append.mpr ⟨h.merged, h.first.take, fun x hx y hy => ?_⟩
    exact h.behind x (List.mem_reverse.mp hx) y
      (List.mem_append_left _ (List.mem_of_mem_take hy))
  first := h.first.drop
  second := h.second
  behind := by
    rw [Merging.takeFirst, List.reverseAux_eq]
    intro x hx y hy
    rcases List.mem_append.mp hx with hx | hx
    · have hx := List.mem_reverse.mp hx
      rcases List.mem_append.mp hy with hy | hy
      · exact rel_take_drop h.first x hx y hy
      · exact hk x hx y hy
    · refine h.behind x hx y (List.mem_append.mpr ?_)
      exact (List.mem_append.mp hy).imp_left List.mem_of_mem_drop
  last := by
    intro x hx
    refine h.last x ?_
    rw [Merging.takeFirst, List.getLast?_drop] at hx
    split_ifs at hx with hlen
    · cases hx
    · exact hx

theorem takeSecond (h : m.Sound R all) (hk : ∀ y ∈ m.second.take k, ∀ x ∈ m.first, R y x) :
    (m.takeSecond k).Sound R all where
  perm := by
    refine List.Perm.trans ?_ h.perm
    rw [Merging.takeSecond, List.reverseAux_eq, List.append_assoc]
    calc (m.second.take k).reverse ++ (m.merged ++ (m.first ++ m.second.drop k))
      _ |>.Perm (m.second.take k ++ (m.merged ++ (m.first ++ m.second.drop k))) :=
        (List.reverse_perm _).append_right _
      _ |>.Perm (m.merged ++ (m.second.take k ++ (m.first ++ m.second.drop k))) :=
        List.perm_append_comm_assoc _ _ _
      _ |>.Perm (m.merged ++ (m.first ++ (m.second.take k ++ m.second.drop k))) :=
        (List.perm_append_comm_assoc _ _ _).append_left _
      _ |>.Perm (m.merged ++ (m.first ++ m.second)) := by rw [List.take_append_drop]
  merged := by
    rw [Merging.takeSecond, List.reverseAux_eq, List.reverse_append, List.reverse_reverse]
    refine List.pairwise_append.mpr ⟨h.merged, h.second.take, fun x hx y hy => ?_⟩
    exact h.behind x (List.mem_reverse.mp hx) y
      (List.mem_append_right _ (List.mem_of_mem_take hy))
  first := h.first
  second := h.second.drop
  behind := by
    rw [Merging.takeSecond, List.reverseAux_eq]
    intro x hx y hy
    rcases List.mem_append.mp hx with hx | hx
    · have hx := List.mem_reverse.mp hx
      rcases List.mem_append.mp hy with hy | hy
      · exact hk x hx y hy
      · exact rel_take_drop h.second x hx y hy
    · refine h.behind x hx y (List.mem_append.mpr ?_)
      exact (List.mem_append.mp hy).imp_right List.mem_of_mem_drop
  last := fun x hx y hy => h.last x hx y (List.mem_of_mem_drop hy)

theorem finish (h : m.Sound R all) (hm : m.settled) : InOrder R all m.finish := by
  rw [Merging.finish, List.reverseAux_eq]
  refine ⟨?_, List.pairwise_append.mpr ⟨h.merged, ?_, fun x hx y hy => ?_⟩⟩
  · exact ((List.reverse_perm _).append List.perm_append_comm).trans h.perm
  · refine List.pairwise_append.mpr ⟨h.second, h.first, fun y hy x hx => ?_⟩
    -- one element of the first run is left, and it is the last of all
    obtain ⟨first, second, merged⟩ := m
    have hlast := h.last
    match first, second with
    | [_], _ =>
      rw [List.mem_singleton.mp hx]
      exact hlast _ rfl y hy
    | _ :: _ :: _, [] => cases hy
  · exact h.behind x (List.mem_reverse.mp hx) y (List.perm_append_comm.mem_iff.mp hy)

end Sound
end Merging

/-! ### Rounds -/

section Rounds
variable {before : α → α → Except ε Bool} (htrans : ∀ ⦃x y z⦄, R x y → R y z → R x z)

/-- The state of a merge of `all`: it is sound, and what is asked about the two runs puts their
elements into order. -/
structure Merging.Ready (before : α → α → Except ε Bool) (R : α → α → Prop) (all : List α)
    (m : Merging α) : Prop where
  sound : m.Sound R all
  decides : ∀ x ∈ m.first, ∀ y ∈ m.second, Decides before R x y

theorem Merging.Ready.takeFirst (h : m.Ready before R all)
    (hk : ∀ x ∈ m.first.take k, ∀ y ∈ m.second, R x y) : (m.takeFirst k).Ready before R all where
  sound := h.sound.takeFirst hk
  decides := fun x hx => h.decides x (List.mem_of_mem_drop hx)

theorem Merging.Ready.takeSecond (h : m.Ready before R all)
    (hk : ∀ y ∈ m.second.take k, ∀ x ∈ m.first, R y x) : (m.takeSecond k).Ready before R all where
  sound := h.sound.takeSecond hk
  decides := fun x hx y hy => h.decides x hx y (List.mem_of_mem_drop hy)

include htrans

theorem gallopFirst_gives (mirrored : Bool) (h : m.Ready before R all) :
    Gives (fun r => r.1.Ready before R all ∧ r.1.size ≤ m.size ∧ (¬ m.settled → r.1.size < m.size))
      (gallopFirst mirrored before m) := by
  obtain ⟨first, second, merged⟩ := m
  cases second with
  | nil => exact .ok ⟨h, Nat.le_refl _, fun hm => absurd rfl (Merging.ne_nil_of_not_settled hm).2⟩
  | cons y ys =>
    unfold gallopFirst
    dsimp only
    split_ifs with hsettled
    · exact .ok ⟨h, Nat.le_refl _, fun hm => absurd hsettled hm⟩
    have hsearch := leading_notAbove_gives htrans mirrored h.sound.first fun x hx =>
      h.decides x hx y List.mem_cons_self
    refine hsearch.bind fun k ⟨hbelow, habove⟩ => ?_
    have htaken := h.takeFirst (k := k)
      fun x hx => rel_of_rel_head htrans (hbelow x hx) h.sound.second
    refine .ok ?_
    dsimp only
    split_ifs with hdone
    · refine ⟨htaken, Merging.size_takeFirst_le _ k, fun hm => ?_⟩
      refine Merging.size_takeFirst_lt (Merging.ne_nil_of_not_settled hm).1 ?_
      rintro rfl
      exact hm hdone
    · have hsecond : (Merging.takeFirst ⟨first, y :: ys, merged⟩ k).second.take 1 = [y] := rfl
      have hlt := Merging.size_takeSecond_lt (k := 1)
        (Merging.ne_nil_of_not_settled hdone).2 Nat.one_ne_zero
      have hle := Merging.size_takeFirst_le ⟨first, y :: ys, merged⟩ k
      refine ⟨htaken.takeSecond ?_, by omega, fun _ => by omega⟩
      rw [hsecond]
      intro z hz
      rw [List.mem_singleton.mp hz]
      exact habove

theorem gallopSecond_gives (mirrored : Bool) (h : m.Ready before R all) :
    Gives (fun r => r.1.Ready before R all ∧ r.1.size ≤ m.size ∧ (¬ m.settled → r.1.size < m.size))
      (gallopSecond mirrored before m) := by
  obtain ⟨first, second, merged⟩ := m
  cases first with
  | nil => exact .ok ⟨h, Nat.le_refl _, fun hm => absurd rfl (Merging.ne_nil_of_not_settled hm).1⟩
  | cons x xs =>
    unfold gallopSecond
    dsimp only
    split_ifs with hsettled
    · exact .ok ⟨h, Nat.le_refl _, fun hm => absurd hsettled hm⟩
    have hdecides (y : α) (hy : y ∈ second) : Decides before R x y :=
      h.decides x List.mem_cons_self y hy
    refine (leading_gives (L := fun y => R y x) (U := R x)
      (fun y hy hp => (hdecides y hy).above hp) (fun y hy hp => (hdecides y hy).notAbove hp)
      (h.sound.second.imp fun hyz hz => htrans hyz hz)
      (h.sound.second.imp fun hyz hy => htrans hy hyz) mirrored).bind fun k ⟨hbelow, habove⟩ => ?_
    have htaken := h.takeSecond (k := k)
      fun y hy => rel_of_rel_head htrans (hbelow y hy) h.sound.first
    refine .ok ?_
    dsimp only
    split_ifs with hdone
    · refine ⟨htaken, Merging.size_takeSecond_le _ k, fun hm => ?_⟩
      refine Merging.size_takeSecond_lt (Merging.ne_nil_of_not_settled hm).2 ?_
      rintro rfl
      exact hm hdone
    · have hfirst : (Merging.takeSecond ⟨x :: xs, second, merged⟩ k).first.take 1 = [x] := rfl
      have hlt := Merging.size_takeFirst_lt (k := 1)
        (Merging.ne_nil_of_not_settled hdone).1 Nat.one_ne_zero
      have hle := Merging.size_takeSecond_le ⟨x :: xs, second, merged⟩ k
      refine ⟨htaken.takeFirst ?_, by omega, fun _ => by omega⟩
      rw [hfirst]
      intro z hz
      rw [List.mem_singleton.mp hz]
      exact habove

theorem gallopBoth_gives (mirrored : Bool) (h : m.Ready before R all) :
    Gives (fun r => r.1.Ready before R all ∧ (¬ m.settled → r.1.size < m.size))
      (gallopBoth mirrored before m) := by
  unfold gallopBoth
  split_ifs
  · refine (gallopSecond_gives htrans mirrored h).bind fun r hr => ?_
    refine (gallopFirst_gives htrans mirrored hr.1).bind fun s hs => ?_
    exact .ok ⟨hs.1, fun hm => Nat.lt_of_le_of_lt hs.2.1 (hr.2.2 hm)⟩
  · refine (gallopFirst_gives htrans mirrored h).bind fun r hr => ?_
    refine (gallopSecond_gives htrans mirrored hr.1).bind fun s hs => ?_
    exact .ok ⟨hs.1, fun hm => Nat.lt_of_le_of_lt hs.2.1 (hr.2.2 hm)⟩

/-- Rounds for all that is left give the merged run. -/
theorem mergeRounds_gives (mirrored : Bool) (n : Nat) (pace : Pace) (limit : Nat)
    (h : m.Ready before R all) (hn : m.size ≤ n) :
    Gives (fun r => InOrder R all r.1) (mergeRounds mirrored before n pace limit m) := by
  induction n generalizing pace limit m with
  | zero =>
    refine .ok (h.sound.finish ?_)
    by_contra hm
    have := List.length_pos_iff.mpr (Merging.ne_nil_of_not_settled hm).1
    simp only [Merging.size] at hn
    omega
  | succ n ih =>
    have hgallop (hm : ¬ m.settled) : Gives (fun r => InOrder R all r.1)
        (gallopBoth mirrored before m >>= fun r =>
          if r.1.settled then return (r.1.finish, limit)
          else if worthwhile ≤ r.2.1 || worthwhile ≤ r.2.2 then
            mergeRounds mirrored before n .galloping (max 1 (limit - 1)) r.1
          else mergeRounds mirrored before n (.steady false 0) (limit + 1) r.1) := by
      refine (gallopBoth_gives htrans mirrored h).bind fun r ⟨hready, hsize⟩ => ?_
      have hn : r.1.size ≤ n := by
        have := hsize hm
        omega
      split_ifs with hdone
      · exact .ok (hready.sound.finish hdone)
      · exact ih _ _ hready hn
      · exact ih _ _ hready hn
    unfold mergeRounds
    split_ifs with hsettled
    · exact .ok (h.sound.finish hsettled)
    split
    case h_1 winner wins x xs y ys hfirst hsecond =>
      have hdecides : Decides before R x y :=
        h.decides x (by simp [hfirst]) y (by simp [hsecond])
      have hne := Merging.ne_nil_of_not_settled hsettled
      refine Gives.self.bind fun c hc => ?_
      cases c with
      | true =>
        have hlt := Merging.size_takeSecond_lt hne.2 Nat.one_ne_zero
        refine ih _ _ (h.takeSecond fun z hz => ?_) (by simp only [if_true]; omega)
        obtain rfl : z = y := by simpa [hsecond] using hz
        rw [hfirst]
        exact rel_of_rel_head htrans (hdecides.above hc) (hfirst ▸ h.sound.first)
      | false =>
        have hlt := Merging.size_takeFirst_lt hne.1 Nat.one_ne_zero
        refine ih _ _ (h.takeFirst fun z hz => ?_) (by simp only [Bool.false_eq_true, if_false]; omega)
        obtain rfl : z = x := by simpa [hfirst] using hz
        rw [hsecond]
        exact rel_of_rel_head htrans (hdecides.notAbove hc) (hsecond ▸ h.sound.second)
    case h_2 => exact hgallop hsettled

end Rounds

/-! ### Two runs -/

section Merge
variable {less : α → α → Except ε Bool} {a b : List α} (htrans : ∀ ⦃x y z⦄, R x y → R y z → R x z)
include htrans

/-- Two runs are merged where the first element of the second is the first of all, and the last
element of the first the last of all. -/
theorem mergeFront_gives {before : α → α → Except ε Bool} (mirrored : Bool) (limit : Nat)
    {first second : List α} (hfirst : first.Pairwise R) (hsecond : second.Pairwise R)
    (hdecides : ∀ x ∈ first, ∀ y ∈ second, Decides before R x y)
    (hhead : ∀ y ∈ second.head?, ∀ x ∈ first, R y x)
    (hlast : ∀ x ∈ first.getLast?, ∀ y ∈ second, R y x) :
    Gives (fun r => InOrder R (first ++ second) r.1)
      (mergeFront mirrored before limit first second) := by
  have hstart : (Merging.mk first second []).Ready before R (first ++ second) :=
    ⟨⟨.refl _, .nil, hfirst, hsecond, nofun, hlast⟩, hdecides⟩
  refine mergeRounds_gives htrans mirrored _ _ limit (hstart.takeSecond fun y hy => ?_)
    (Merging.size_takeSecond_le _ 1)
  refine hhead y ?_
  cases second with
  | nil => cases hy
  | cons z zs => simpa using (List.mem_singleton.mp hy).symm

theorem mergeOverlap_gives (ha : a.Pairwise R) (hb : b.Pairwise R)
    (hdecides : ∀ x ∈ a, ∀ y ∈ b, Decides less R x y)
    (hhead : ∀ y ∈ b.head?, ∀ x ∈ a, R y x) (hlast : ∀ x ∈ a.getLast?, ∀ y ∈ b, R y x) :
    SorterGives (InOrder R (a ++ b)) (mergeOverlap less a b) := by
  intro limit
  unfold mergeOverlap
  split_ifs
  · exact mergeFront_gives htrans false limit ha hb hdecides hhead hlast
  · -- seen from behind, both runs are in the opposite order
    have hopposite : ∀ y ∈ b.reverse, ∀ x ∈ a.reverse,
        Decides (fun x y => less y x) (fun x y => R y x) y x := fun y hy x hx =>
      (hdecides x (List.mem_reverse.mp hx) y (List.mem_reverse.mp hy)).opposite
    have hmerged := mergeFront_gives (R := fun x y => R y x)
      (fun _ _ _ hxy hyz => htrans hyz hxy) true limit (List.pairwise_reverse.mpr hb)
      (List.pairwise_reverse.mpr ha) hopposite
      (fun x hx y hy => hlast x (by simpa using hx) y (List.mem_reverse.mp hy))
      (fun y hy x hx => hhead y (by simpa using hy) x (List.mem_reverse.mp hx))
    refine hmerged.bind fun r hr => .ok ⟨?_, List.pairwise_reverse.mpr hr.ordered⟩
    calc r.1.reverse
      _ |>.Perm r.1 := List.reverse_perm _
      _ |>.Perm (b.reverse ++ a.reverse) := hr.perm
      _ |>.Perm (a.reverse ++ b.reverse) := List.perm_append_comm
      _ |>.Perm (a ++ b) := (List.reverse_perm a).append (List.reverse_perm b)

omit htrans in
/-- What stands at its place already is left alone. -/
theorem InOrder.splice {merged : List α} {n : Nat} (ha : a.Pairwise R) (hb : b.Pairwise R)
    (hfront : ∀ x ∈ a.take k, ∀ y ∈ b, R x y) (hback : ∀ x ∈ a.drop k, ∀ y ∈ b.drop n, R x y)
    (h : InOrder R (a.drop k ++ b.take n) merged) :
    InOrder R (a ++ b) (a.take k ++ merged ++ b.drop n) := by
  refine ⟨?_, List.pairwise_append.mpr
    ⟨List.pairwise_append.mpr ⟨ha.take, h.ordered, ?_⟩, hb.drop, ?_⟩⟩
  · calc a.take k ++ merged ++ b.drop n
      _ |>.Perm (a.take k ++ (a.drop k ++ b.take n) ++ b.drop n) :=
        (h.perm.append_left _).append_right _
      _ |>.Perm (a ++ b) := by
        rw [← List.append_assoc, List.take_append_drop, List.append_assoc, List.take_append_drop]
  · intro x hx y hy
    rcases List.mem_append.mp (h.perm.mem_iff.mp hy) with hy | hy
    · exact rel_take_drop ha x hx y hy
    · exact hfront x hx y (List.mem_of_mem_take hy)
  · intro x hx y hy
    rcases List.mem_append.mp hx with hx | hx
    · exact hfront x hx y (List.mem_of_mem_drop hy)
    rcases List.mem_append.mp (h.perm.mem_iff.mp hx) with hx | hx
    · exact hback x hx y hy
    · exact rel_take_drop hb x hx y hy

/-- The elements of the second run that are behind the last one of the first, and the others. -/
theorem leading_last_gives {x : α} (hb : b.Pairwise R) (hdecides : ∀ y ∈ b, Decides less R x y) :
    Gives (fun j => (∀ y ∈ b.drop (b.length - j), R x y) ∧ ∀ y ∈ b.take (b.length - j), R y x)
      (leading true (notAbove less x) b.reverse) := by
  have hbehind : Gives (fun j => (∀ y ∈ b.reverse.take j, R x y) ∧ ∀ y ∈ b.reverse.drop j, R y x)
      (leading true (notAbove less x) b.reverse) :=
    leading_notAbove_gives (R := fun x y => R y x) (fun _ _ _ hxy hyz => htrans hyz hxy) true
      (List.pairwise_reverse.mpr hb) fun y hy => (hdecides y (List.mem_reverse.mp hy)).opposite
  refine hbehind.mono fun j ⟨hback, hinner⟩ => ⟨fun y hy => hback y ?_, fun y hy => hinner y ?_⟩
  · rwa [List.take_reverse, List.mem_reverse]
  · rwa [List.drop_reverse, List.mem_reverse]

theorem merge_gives (ha : a.Pairwise R) (hb : b.Pairwise R)
    (hdecides : ∀ x ∈ a, ∀ y ∈ b, Decides less R x y) :
    SorterGives (InOrder R (a ++ b)) (merge less a b) := by
  unfold merge
  cases b with
  | nil => exact .pure ⟨by rw [List.append_nil], ha⟩
  | cons y bs =>
    dsimp only [List.head?_cons]
    have hfirst := leading_notAbove_gives htrans false ha fun x hx =>
      hdecides x hx y List.mem_cons_self
    refine .bind (.lift hfirst) fun k ⟨hfront, hrest⟩ => ?_
    -- the front of the first run is before all of the second
    have hfront (x : α) (hx : x ∈ a.take k) : ∀ z ∈ y :: bs, R x z :=
      rel_of_rel_head htrans (hfront x hx) hb
    cases hlast : (a.drop k).getLast? with
    | none =>
      have hwhole : a.take k = a := List.take_of_length_le
        (List.drop_eq_nil_iff.mp (List.getLast?_eq_none_iff.mp hlast))
      rw [hwhole] at hfront
      exact .pure ⟨.refl _, List.pairwise_append.mpr ⟨ha, hb, hfront⟩⟩
    | some x =>
      have hx : x ∈ a := List.mem_of_mem_drop (List.mem_of_getLast? hlast)
      refine .bind (.lift (leading_last_gives htrans hb (hdecides x hx))) fun j ⟨hback, hinner⟩ => ?_
      generalize (y :: bs).length - j = n at hback hinner ⊢
      -- and all of the first run before the back of the second
      have hback : ∀ u ∈ a.drop k, ∀ z ∈ (y :: bs).drop n, R u z := fun u hu z hz =>
        rel_of_rel_getLast htrans ha.drop hlast (hback z hz) u hu
      have hinsert {merged : List α} (h : InOrder R (a.drop k ++ (y :: bs).take n) merged) :
          InOrder R (a ++ y :: bs) (a.take k ++ merged ++ (y :: bs).drop n) :=
        h.splice ha hb hfront hback
      split_ifs with hempty
      · have hnil : (y :: bs).take n = [] := List.isEmpty_iff.mp hempty
        have hdrop : (y :: bs).drop n = y :: bs := by
          simpa [hnil] using List.take_append_drop n (y :: bs)
        have hall := hinsert ⟨by rw [hnil, List.append_nil], ha.drop (i := k)⟩
        rw [List.take_append_drop, hdrop] at hall
        exact .pure hall
      · refine (mergeOverlap_gives htrans ha.drop hb.take (fun u hu z hz => hdecides u
          (List.mem_of_mem_drop hu) z (List.mem_of_mem_take hz)) ?_ ?_).bind fun merged hmerged =>
          .pure (hinsert hmerged)
        · intro z hz
          cases n with
          | zero => exact absurd rfl hempty
          | succ n =>
            cases hz
            exact hrest
        · intro x' hx' z hz
          cases hlast.symm.trans hx'
          exact hinner z hz

end Merge
end ChatTemplate.Sorting
