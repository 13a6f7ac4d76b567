import ChatTemplate.Text.Lines
import Mathlib.Data.List.Basic

/-!
# The pieces of a text between its line boundaries

`Text.Pieces` says what stands between the boundaries of a text, with an empty piece at the end where
the text ends with a boundary. `Text.lines` leaves that piece out. With a newline more at the end it
finds the piece as well, unless the text ends with a carriage return, which makes one boundary with
the newline (`Text.Pieces.lines_concat`).
-/

namespace ChatTemplate.Text
variable {cs piece boundary rest : List Codepoint} {c : Codepoint} {ps : List (List Codepoint)}

/-- No line ends in it. -/
def Unbroken (piece : List Codepoint) : Prop := ∀ c ∈ piece, ¬ isLineBreak c

theorem unbroken_nil : Unbroken [] := by
  rintro c ⟨⟩

/-- The first list is a line boundary where the second one follows it: a carriage return with a
newline, or any other code point that ends a line. -/
inductive Boundary : List Codepoint → List Codepoint → Prop
  | pair (rest : List Codepoint) : Boundary [.ofChar '\r', .ofChar '\n'] rest
  | single {c : Codepoint} {rest : List Codepoint} (hc : isLineBreak c)
      (halone : c = .ofChar '\r' → rest.head? ≠ some (.ofChar '\n')) : Boundary [c] rest

/-- The text is one of these pieces after the other, with a boundary between any two. -/
inductive Pieces : List Codepoint → List (List Codepoint) → Prop
  | last {piece : List Codepoint} (h : Unbroken piece) : Pieces piece [piece]
  | cons {piece boundary rest : List Codepoint} {ps : List (List Codepoint)} (h : Unbroken piece)
      (hboundary : Boundary boundary rest) (hrest : Pieces rest ps) :
      Pieces (piece ++ boundary ++ rest) (piece :: ps)

namespace Pieces

theorem ne_nil (h : Pieces cs ps) : ps ≠ [] := by
  cases h <;> exact List.cons_ne_nil _ _

theorem eq_of_nil (h : Pieces [] ps) : ps = [[]] := by
  generalize hcs : [] = cs at h
  cases h with
  | last => rw [← hcs]
  | cons _ hboundary => cases hboundary <;> simp at hcs

/-- Behind a carriage return at the end there is an empty piece. -/
theorem getLast?_of_return (h : Pieces cs ps) (hlast : cs.getLast? = some (.ofChar '\r')) :
    ps.getLast? = some [] := by
  induction h with
  | last h => exact absurd (by decide) (h _ (List.mem_of_getLast? hlast))
  | @cons piece boundary rest ps h hboundary hrest ih =>
    by_cases hne : rest = []
    · subst hne
      rw [hrest.eq_of_nil]
      rfl
    · rw [List.getLast?_append_of_ne_nil _ hne] at hlast
      obtain ⟨p, ps, rfl⟩ := List.exists_cons_of_ne_nil hrest.ne_nil
      exact (List.getLast?_cons_cons ..).trans (ih hlast)

theorem extend (hc : ¬ isLineBreak c) (h : Pieces cs (piece :: ps)) :
    Pieces (c :: cs) ((c :: piece) :: ps) := by
  cases h with
  | last h => exact .last (List.forall_mem_cons.mpr ⟨hc, h⟩)
  | cons h hboundary hrest => exact .cons (List.forall_mem_cons.mpr ⟨hc, h⟩) hboundary hrest

end Pieces

/-- Every text has pieces. -/
theorem exists_pieces : ∀ cs : List Codepoint, ∃ ps, Pieces cs ps
  | [] => ⟨_, .last unbroken_nil⟩
  | c :: cs => by
    obtain ⟨ps, hps⟩ := exists_pieces cs
    by_cases hc : isLineBreak c
    · by_cases hpair : c = .ofChar '\r' ∧ cs.head? = some (.ofChar '\n')
      · obtain ⟨rest, rfl⟩ := List.head?_eq_some_iff.mp hpair.2
        obtain ⟨rs, hrs⟩ := exists_pieces rest
        rw [hpair.1]
        exact ⟨_, .cons unbroken_nil (.pair rest) hrs⟩
      · exact ⟨_, .cons unbroken_nil (.single hc fun hr hn => hpair ⟨hr, hn⟩) hps⟩
    · obtain ⟨piece, ps, rfl⟩ := List.exists_cons_of_ne_nil hps.ne_nil
      exact ⟨_, hps.extend hc⟩

/-! ### Lines -/

theorem Boundary.lines_append (h : Boundary boundary rest) :
    lines (boundary ++ rest) = [] :: lines rest := by
  have hsingle {c : Codepoint} {rest : List Codepoint} (hc : isLineBreak c)
      (halone : c = .ofChar '\r' → rest.head? ≠ some (.ofChar '\n')) :
      lines (c :: rest) = [] :: lines rest := by
    rw [lines, if_neg (by simpa using halone), if_pos hc]
  cases h with
  | pair rest =>
    have hnewline : lines (.ofChar '\n' :: rest) = [] :: lines rest :=
      hsingle (by decide) fun h => absurd h (by decide)
    rw [← hnewline]
    exact if_pos rfl
  | single hc halone => exact hsingle hc halone

theorem lines_append_of_unbroken (h : Unbroken piece) {l : List Codepoint}
    {ls : List (List Codepoint)} (hrest : lines rest = l :: ls) :
    lines (piece ++ rest) = (piece ++ l) :: ls := by
  induction piece with
  | nil => exact hrest
  | cons c piece ih =>
    obtain ⟨hc, hpiece⟩ := List.forall_mem_cons.mp h
    have hreturn : ¬ (c == .ofChar '\r' && (piece ++ rest).head? == some (.ofChar '\n')) := by
      simp only [Bool.and_eq_true, beq_iff_eq, not_and]
      rintro rfl
      exact absurd (by decide) hc
    rw [List.cons_append, lines, if_neg hreturn, if_neg hc, ih hpiece]
    rfl

namespace Boundary

/-- A newline more at the end leaves a boundary as it is, unless it is a carriage return at the end. -/
theorem concat (h : Boundary boundary rest) (hlast : ¬ (boundary = [.ofChar '\r'] ∧ rest = [])) :
    Boundary boundary (rest ++ [.ofChar '\n']) := by
  cases h with
  | pair => exact .pair _
  | single hc halone =>
    refine .single hc fun hr hhead => ?_
    cases rest with
    | nil => exact hlast ⟨by rw [hr], rfl⟩
    | cons d rest => exact halone hr hhead

theorem getLast?_eq_return (h : Boundary boundary rest)
    (hlast : ¬ (boundary = [.ofChar '\r'] ∧ rest = [])) (piece : List Codepoint) :
    (piece ++ boundary ++ rest).getLast? = some (.ofChar '\r') ↔
      rest.getLast? = some (.ofChar '\r') := by
  by_cases hne : rest = []
  · subst hne
    cases h with
    | pair => simpa using by decide
    | single hc halone => simpa using hlast
  · rw [List.getLast?_append_of_ne_nil _ hne]

end Boundary

/-- With a newline more at the end, the lines of a text are its pieces. But where the text ends with a
carriage return, the newline belongs to that boundary, and the empty piece behind it is lost. -/
theorem Pieces.lines_concat (h : Pieces cs ps) : lines (cs ++ [.ofChar '\n']) =
    if cs.getLast? = some (.ofChar '\r') then ps.dropLast else ps := by
  induction h with
  | @last piece h =>
    have hnewline : lines [.ofChar '\n'] = [[]] := rfl
    have hlast : piece.getLast? ≠ some (.ofChar '\r') :=
      fun hr => h _ (List.mem_of_getLast? hr) (by decide)
    rw [if_neg hlast, lines_append_of_unbroken h hnewline, List.append_nil]
  | @cons piece boundary rest ps h hboundary hrest ih =>
    by_cases hlast : boundary = [.ofChar '\r'] ∧ rest = []
    · obtain ⟨rfl, rfl⟩ := hlast
      have hend := lines_append_of_unbroken h (Boundary.pair []).lines_append
      rw [hrest.eq_of_nil, if_pos (by simp)]
      simpa [lines] using hend
    · have hnext := (hboundary.concat hlast).lines_append
      rw [List.append_assoc, List.append_assoc, lines_append_of_unbroken h hnext, ih,
        List.append_nil, List.dropLast_cons_of_ne_nil hrest.ne_nil,
        apply_ite (piece :: ·)]
      simp only [hboundary.getLast?_eq_return hlast]

end ChatTemplate.Text
