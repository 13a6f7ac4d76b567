import ChatTemplate.Text.Split
import Mathlib.Data.List.Infix

/-!
# Splitting, joining and replacing

A list is cut at the first occurrence of a word, before which there is none (`Text.cut?_eq_some`).
The pieces between its first occurrences give the list back when they are joined with the word
(`Text.intercalate_splitOn`), and what replaces these occurrences when they are joined with something
else (`Text.replace_eq_intercalate`).
-/

namespace ChatTemplate.Text
variable {α : Type} [BEq α] {sep old new xs before after : List α}

/-! ### Pieces -/

theorem splitOn_ne_nil (sep : List α) (n : Nat) (xs : List α) : splitOn sep n xs ≠ [] := by
  unfold splitOn
  split
  · exact List.cons_ne_nil _ _
  · split <;> exact List.cons_ne_nil _ _

theorem length_splitOn_le (sep : List α) (n : Nat) (xs : List α) :
    (splitOn sep n xs).length ≤ n + 1 := by
  induction n generalizing xs with
  | zero => simp [splitOn]
  | succ n ih =>
    rw [splitOn]
    split
    · simp
    · rw [List.length_cons]
      exact Nat.succ_le_succ (ih _)

/-! ### Replacing -/

theorem replaceWord_skip (n skip : Nat) (xs : List α) :
    replaceWord old new n skip xs = replaceWord old new n 0 (xs.drop skip) := by
  induction skip generalizing xs with
  | zero => rfl
  | succ skip ih =>
    cases xs with
    | nil => simp [replaceWord]
    | cons x xs =>
      rw [replaceWord, ih]
      rfl

theorem replaceWord_succ (hold : old ≠ []) (n : Nat) (xs : List α) :
    replaceWord old new (n + 1) 0 xs =
      match cut? old xs with
      | none => xs
      | some (before, after) => before ++ new ++ replaceWord old new n 0 after := by
  induction xs with
  | nil => rfl
  | cons x xs ih =>
    rw [replaceWord, cut?]
    split_ifs
    · obtain ⟨y, ys, rfl⟩ := List.exists_cons_of_ne_nil hold
      rw [replaceWord_skip]
      rfl
    · rw [ih]
      cases cut? old xs <;> rfl

theorem replaceWord_eq_intercalate (hold : old ≠ []) (n : Nat) (xs : List α) :
    replaceWord old new n 0 xs = new.intercalate (splitOn old n xs) := by
  induction n generalizing xs with
  | zero => cases xs <;> simp [replaceWord, splitOn]
  | succ n ih =>
    rw [replaceWord_succ hold, splitOn]
    cases cut? old xs with
    | none => exact List.intercalate_singleton.symm
    | some cut =>
      dsimp only
      rw [List.intercalate_cons_of_ne_nil (splitOn_ne_nil old n cut.2), ih]

/-- Replacing the first occurrences is joining the pieces between them anew. -/
theorem replace_eq_intercalate (hold : old ≠ []) (n : Nat) (xs : List α) :
    replace old new n xs = new.intercalate (splitOn old n xs) := by
  rw [replace, if_neg (mt List.isEmpty_iff.mp hold), replaceWord_eq_intercalate hold]

/-! ### Cutting -/

variable [LawfulBEq α]

theorem cut?_cons_of_starts {x : α} (h : sep <+: x :: xs) :
    cut? sep (x :: xs) = some ([], (x :: xs).drop sep.length) := by
  rw [cut?, if_pos (List.isPrefixOf_iff_prefix.mpr h)]

theorem cut?_cons_of_not_starts {x : α} (h : ¬ sep <+: x :: xs) :
    cut? sep (x :: xs) = (cut? sep xs).map fun (before, after) => (x :: before, after) := by
  rw [cut?, if_neg (mt List.isPrefixOf_iff_prefix.mp h)]

theorem cut?_eq_none (hsep : sep ≠ []) : cut? sep xs = none ↔ ¬ sep <:+: xs := by
  induction xs with
  | nil => simp [cut?, hsep]
  | cons x xs ih =>
    rw [List.infix_cons_iff, not_or, ← ih]
    by_cases hprefix : sep <+: x :: xs
    · simp [cut?_cons_of_starts hprefix, hprefix]
    · simp [cut?_cons_of_not_starts hprefix, hprefix]

/-- A list is cut at the first occurrence. -/
theorem cut?_eq_some (hsep : sep ≠ []) (h : cut? sep xs = some (before, after)) :
    xs = before ++ sep ++ after ∧ ¬ sep <:+: before := by
  induction xs generalizing before with
  | nil => cases h
  | cons x xs ih =>
    by_cases hprefix : sep <+: x :: xs
    · cases (cut?_cons_of_starts hprefix).symm.trans h
      refine ⟨?_, by simpa using hsep⟩
      exact (List.prefix_iff_eq_append.mp hprefix).symm
    · obtain ⟨⟨before', after'⟩, hcut, heq⟩ :=
        Option.map_eq_some_iff.mp ((cut?_cons_of_not_starts hprefix).symm.trans h)
      cases heq
      obtain ⟨hxs, hno⟩ := ih hcut
      refine ⟨by rw [hxs]; rfl, ?_⟩
      rw [List.infix_cons_iff]
      rintro (hfront | hinner)
      · refine hprefix (hfront.trans ?_)
        rw [hxs, List.append_assoc]
        exact List.prefix_append (x :: before') _
      · exact hno hinner

theorem length_after_lt (hsep : sep ≠ []) (h : cut? sep xs = some (before, after)) :
    after.length < xs.length := by
  have hpos := List.length_pos_iff.mpr hsep
  rw [(cut?_eq_some hsep h).1]
  simp only [List.length_append]
  omega

/-! ### All pieces -/

theorem intercalate_splitOn (hsep : sep ≠ []) (n : Nat) (xs : List α) :
    sep.intercalate (splitOn sep n xs) = xs := by
  induction n generalizing xs with
  | zero => simp [splitOn]
  | succ n ih =>
    rw [splitOn]
    split
    case h_1 => simp
    case h_2 before after hcut =>
      rw [List.intercalate_cons_of_ne_nil (splitOn_ne_nil sep n after), ih,
        (cut?_eq_some hsep hcut).1]

/-- As many occurrences as there are elements are all of them. -/
theorem not_infix_of_mem_splitOn (hsep : sep ≠ []) {n : Nat} (hn : xs.length ≤ n) {piece : List α}
    (h : piece ∈ splitOn sep n xs) : ¬ sep <:+: piece := by
  induction n generalizing xs with
  | zero =>
    rw [List.eq_nil_of_length_eq_zero (Nat.le_zero.mp hn)] at h
    cases List.mem_singleton.mp h
    simpa using hsep
  | succ n ih =>
    rw [splitOn] at h
    split at h
    case h_1 hcut =>
      cases List.mem_singleton.mp h
      exact (cut?_eq_none hsep).mp hcut
    case h_2 before after hcut =>
      rcases List.mem_cons.mp h with rfl | h
      · exact (cut?_eq_some hsep hcut).2
      · have := length_after_lt hsep hcut
        exact ih (by omega) h

theorem splitOn_eq_of_le (hsep : sep ≠ []) {n m : Nat} (hn : xs.length ≤ n) (hm : xs.length ≤ m) :
    splitOn sep n xs = splitOn sep m xs := by
  induction n generalizing m xs with
  | zero =>
    rw [List.eq_nil_of_length_eq_zero (Nat.le_zero.mp hn)]
    cases m <;> rfl
  | succ n ih =>
    cases m with
    | zero =>
      rw [List.eq_nil_of_length_eq_zero (Nat.le_zero.mp hm)]
      rfl
    | succ m =>
      rw [splitOn, splitOn]
      split
      case h_1 => rfl
      case h_2 before after hcut =>
        have := length_after_lt hsep hcut
        have hafter : splitOn sep n after = splitOn sep m after := ih (by omega) (by omega)
        rw [hafter]

end ChatTemplate.Text
