import ChatTemplate.Layout
import Mathlib.Data.List.Infix
import Mathlib.Data.List.TakeWhile
import Mathlib.Tactic.SplitIfs

/-!
# What the passes over a text delete

Every pass deletes some characters and keeps the others in their order, and whether it deletes a
character can be told from what stands before and behind it (`Rule`). `sift` deletes by such a rule;
`stripStarts_eq_sift`, `trimEnds_eq_sift`, `dropAfter_eq_sift` and `dropBefore_eq_sift` give the
rules of the passes. What holds of one part of a text, whatever stands around it, is then a fact
about the rules.
-/

namespace ChatTemplate.Layout
open Text

/-- Does a character go? The first argument is what stands before it, read backwards, the last one
what stands behind it. -/
abbrev Rule := List Char → Char → List Char → Bool

/-- What a rule leaves of a part of a text, which stands between `before`, read backwards, and
`after`. -/
def sift (drops : Rule) (before after : List Char) : List Char → List Char
  | [] => []
  | c :: cs =>
    if drops before c (cs ++ after) then sift drops (c :: before) after cs
    else c :: sift drops (c :: before) after cs

section
variable {drops : Rule} {before after u v : List Char} {c d : Char}

theorem sift_cons_of_drops (h : drops before c (u ++ after)) :
    sift drops before after (c :: u) = sift drops (c :: before) after u := by
  rw [sift, if_pos h]

theorem sift_cons_of_keeps (h : drops before c (u ++ after) = false) :
    sift drops before after (c :: u) = c :: sift drops (c :: before) after u := by
  rw [sift, if_neg (Bool.eq_false_iff.mp h)]

theorem sift_append (drops : Rule) (before after u v : List Char) :
    sift drops before after (u ++ v) =
      sift drops before (v ++ after) u ++ sift drops (u.reverse ++ before) after v := by
  induction u generalizing before with
  | nil => rfl
  | cons c u ih =>
    rw [List.cons_append, sift, sift, ih, List.append_assoc, List.reverse_cons, List.append_assoc]
    split_ifs <;> rfl

theorem sift_sublist (drops : Rule) (before after u : List Char) :
    List.Sublist (sift drops before after u) u := by
  induction u generalizing before with
  | nil => exact .slnil
  | cons c u ih =>
    rw [sift]
    split_ifs
    · exact (ih _).cons c
    · exact (ih _).cons_cons c

/-- It is enough to look at what is seen from the characters of the part. -/
theorem sift_congr {before' after' : List Char}
    (h : ∀ l c r, u = l ++ c :: r →
      drops (l.reverse ++ before) c (r ++ after) = drops (l.reverse ++ before') c (r ++ after')) :
    sift drops before after u = sift drops before' after' u := by
  induction u generalizing before before' with
  | nil => rfl
  | cons c u ih =>
    have hrest : sift drops (c :: before) after u = sift drops (c :: before') after' u := by
      refine ih fun l d r hu => ?_
      simpa using h (c :: l) d r (by rw [hu]; rfl)
    have hhere : drops before c (u ++ after) = drops before' c (u ++ after') := h [] c u rfl
    rw [sift, sift, hhere, hrest]

theorem sift_eq_nil (h : ∀ l c r, u = l ++ c :: r →
    drops (l.reverse ++ before) c (r ++ after)) : sift drops before after u = [] := by
  induction u generalizing before with
  | nil => rfl
  | cons c u ih =>
    have hhere : drops before c (u ++ after) := h [] c u rfl
    rw [sift_cons_of_drops hhere, ih fun l d r hu => ?_]
    simpa using h (c :: l) d r (by rw [hu]; rfl)

end

/-! ### The rules of the passes -/

/-- Does the line begin here, or go on with spaces and tabs only? -/
def atLineStart (before : List Char) : Bool :=
  (before.dropWhile isSpaceOrTab).head?.all (· == '\n')

/-- Is this the end of a tag, read backwards? -/
def endsTag : List Char → Bool
  | '}' :: c :: _ => isTagEdge c
  | _ => false

def stripRule : Rule := fun before c after =>
  isSpaceOrTab c && startsTag (after.dropWhile isSpaceOrTab) && atLineStart before

def trimRule : Rule := fun before c _ => c == '\n' && endsTag before

/-- The dash of a closing marker goes, and so do the blanks behind the marker. -/
def afterRule (edge : Char) : Rule := fun before c after =>
  c == '-' && [edge, '}'].isPrefixOf after ||
    isBlank c && ['}', edge, '-'].isPrefixOf (dropBlanks before)

/-- The dash of an opening marker goes, and so do the blanks before the marker. -/
def beforeRule (edge : Char) : Rule := fun before c after =>
  c == '-' && [edge, '{'].isPrefixOf before ||
    isBlank c && (opener edge).isPrefixOf (dropBlanks after)

theorem afterRule_iff {edge c : Char} {before after : List Char} : afterRule edge before c after ↔
    c = '-' ∧ [edge, '}'] <+: after ∨ isBlank c ∧ ['}', edge, '-'] <+: dropBlanks before := by
  simp [afterRule]

theorem beforeRule_iff {edge c : Char} {before after : List Char} : beforeRule edge before c after ↔
    c = '-' ∧ [edge, '{'] <+: before ∨ isBlank c ∧ opener edge <+: dropBlanks after := by
  simp [beforeRule]

/-- A line starts where the flag says so. Where it does not, one may start all the same, but then no
tag comes next. -/
theorem stripStarts_eq_sift {start : Bool} {before cs : List Char}
    (hstart : start → atLineStart before)
    (hno : start = false → atLineStart before → startsTag (cs.dropWhile isSpaceOrTab) = false) :
    stripStarts start cs = sift stripRule before [] cs := by
  induction cs generalizing start before with
  | nil => rfl
  | cons c cs ih =>
    have hline : isSpaceOrTab c → atLineStart (c :: before) = atLineStart before := by
      intro hc
      rw [atLineStart, List.dropWhile_cons_of_pos hc, atLineStart]
    have hdrop : isSpaceOrTab c → (c :: cs).dropWhile isSpaceOrTab = cs.dropWhile isSpaceOrTab :=
      fun hc => List.dropWhile_cons_of_pos hc
    have hrule : stripRule before c (cs ++ []) =
        (start && isSpaceOrTab c && startsTag (cs.dropWhile isSpaceOrTab)) := by
      rw [stripRule, List.append_nil]
      cases hc : isSpaceOrTab c with
      | false => simp
      | true =>
        cases start with
        | true => simp [hstart rfl]
        | false =>
          have := hno rfl
          rw [hdrop hc] at this
          cases hbefore : atLineStart before with
          | false => simp
          | true => simp [this hbefore]
    rw [stripStarts, sift, hrule]
    split_ifs with h
    · simp only [Bool.and_eq_true] at h
      refine ih (fun _ => ?_) nofun
      rw [hline h.1.2]
      exact hstart h.1.1
    · congr 1
      refine ih (fun hc => ?_) fun hc hbefore => ?_
      · obtain rfl := beq_iff_eq.mp hc
        rfl
      · cases hsp : isSpaceOrTab c with
        | false =>
          rw [atLineStart, List.dropWhile_cons_of_neg (by simp [hsp])] at hbefore
          simp [hc] at hbefore
        | true =>
          rw [hline hsp] at hbefore
          cases start with
          | true => simpa [hsp] using h
          | false =>
            rw [← hdrop hsp]
            exact hno rfl hbefore

/-- Of the end of a tag and the newline behind it, as much is still to come as is left. -/
def TrimState (before cs : List Char) : Nat → Prop
  | 0 => ∀ e, isTagEdge e → ¬ ([e] <+: before ∧ ['}', '\n'] <+: cs) ∧
    ¬ (['}', e] <+: before ∧ ['\n'] <+: cs)
  | 1 => ∃ e, isTagEdge e ∧ ['}', e] <+: before ∧ ['\n'] <+: cs
  | 2 => ∃ e, isTagEdge e ∧ [e] <+: before ∧ ['}', '\n'] <+: cs
  | _ => False

theorem endsTag_iff {before : List Char} :
    endsTag before ↔ ∃ e, isTagEdge e ∧ ['}', e] <+: before := by
  unfold endsTag
  split
  · simp
  · rename_i hno
    refine iff_of_false nofun ?_
    rintro ⟨e, -, rest, rfl⟩
    exact hno e rest rfl

theorem trimEnds_eq_sift {left : Nat} {before cs : List Char} (h : TrimState before cs left) :
    trimEnds left cs = sift trimRule before [] cs := by
  fun_induction trimEnds left cs generalizing before with
  | case1 => rfl
  | case2 left c cs ih =>
    cases left with
    | succ left => exact h.elim
    | zero =>
      obtain ⟨e, he, hbefore, hcs⟩ := h
      obtain ⟨rfl, hmore⟩ := List.cons_prefix_cons.mp hcs
      have hkeep : trimRule before '}' (cs ++ []) = false := rfl
      rw [sift_cons_of_keeps hkeep, ih ⟨e, he, List.cons_prefix_cons.mpr ⟨rfl, hbefore⟩, hmore⟩]
  | case3 c cs ih =>
    obtain ⟨e, he, hbefore, hcs⟩ := h
    obtain ⟨rfl, -⟩ := List.cons_prefix_cons.mp hcs
    have hdrop : trimRule before '\n' (cs ++ []) := by
      rw [trimRule, endsTag_iff.mpr ⟨e, he, hbefore⟩]
      rfl
    rw [sift_cons_of_drops hdrop, ih fun d hd => ⟨fun hno => ?_, fun hno => ?_⟩]
    · obtain ⟨rfl, -⟩ := List.cons_prefix_cons.mp hno.1
      cases hd
    · cases (List.cons_prefix_cons.mp hno.1).1
  | case4 c cs ih =>
    have hkeep : trimRule before c (cs ++ []) = false := by
      rw [trimRule, Bool.and_eq_false_iff]
      refine or_iff_not_imp_left.mpr fun hc => ?_
      obtain rfl : c = '\n' := by simpa using hc
      rw [Bool.eq_false_iff, Ne, endsTag_iff]
      rintro ⟨e, he, hbefore⟩
      exact (h e he).2 ⟨hbefore, by simp⟩
    rw [sift_cons_of_keeps hkeep, ih]
    split_ifs with hend
    · rw [Bool.and_eq_true, List.isPrefixOf_iff_prefix] at hend
      exact ⟨c, hend.1, by simp, hend.2⟩
    · refine fun e he => ⟨fun hno => hend ?_, fun hno => ?_⟩
      · obtain ⟨rfl, -⟩ := List.cons_prefix_cons.mp hno.1
        rw [he, List.isPrefixOf_iff_prefix.mpr hno.2]
        rfl
      · obtain ⟨rfl, hbefore⟩ := List.cons_prefix_cons.mp hno.1
        exact (h e he).1 ⟨hbefore, List.cons_prefix_cons.mpr ⟨rfl, hno.2⟩⟩

/-- The edge of a tag is neither a blank nor a dash. -/
structure IsEdge (edge : Char) : Prop where
  blank : isBlank edge = false
  dash : edge ≠ '-'

theorem isEdge_percent : IsEdge '%' := ⟨rfl, by decide⟩
theorem isEdge_hash : IsEdge '#' := ⟨rfl, by decide⟩
theorem isEdge_openBrace : IsEdge '{' := ⟨rfl, by decide⟩
theorem isEdge_closeBrace : IsEdge '}' := ⟨rfl, by decide⟩

theorem dropBlanks_cons_of_blank {c : Char} (h : isBlank c) (cs : List Char) :
    dropBlanks (c :: cs) = dropBlanks cs :=
  List.dropWhile_cons_of_pos h

theorem dropBlanks_cons_of_not_blank {c : Char} (h : isBlank c = false) (cs : List Char) :
    dropBlanks (c :: cs) = c :: cs :=
  List.dropWhile_cons_of_neg (by simp [h])

/-- Of a closing marker as many characters are still to come as are left. Between markers the flag
tells whether nothing but blanks stood behind the last one. -/
def AfterState (edge : Char) (before cs : List Char) (after : Bool) : Nat → Prop
  | 0 => (after ↔ ['}', edge, '-'] <+: dropBlanks before) ∧
    ¬ (['-'] <+: before ∧ [edge, '}'] <+: cs) ∧ ¬ ([edge, '-'] <+: before ∧ ['}'] <+: cs)
  | 1 => after ∧ [edge, '-'] <+: before ∧ ['}'] <+: cs
  | 2 => after ∧ ['-'] <+: before ∧ [edge, '}'] <+: cs
  | _ => False

theorem dropAfter_eq_sift {edge : Char} (hedge : IsEdge edge) {left : Nat} {after : Bool}
    {before cs : List Char} (h : AfterState edge before cs after left) :
    dropAfter edge left after cs = sift (afterRule edge) before [] cs := by
  have hkept {before after : List Char} {c : Char} (hdash : c ≠ '-') (hblank : isBlank c = false) :
      afterRule edge before c after = false := by
    rw [Bool.eq_false_iff, Ne, afterRule_iff]
    rintro (⟨rfl, -⟩ | ⟨h, -⟩)
    · exact hdash rfl
    · exact absurd h (by simp [hblank])
  fun_induction dropAfter edge left after cs generalizing before with
  | case1 => rfl
  | case2 left after c cs ih =>
    cases left with
    | zero =>
      obtain ⟨rfl, hbefore, hcs⟩ := h
      obtain ⟨rfl, -⟩ := List.cons_prefix_cons.mp hcs
      obtain ⟨more, rfl⟩ := hbefore
      have hbrace : isBlank '}' = false := by decide
      have hstate : AfterState edge ('}' :: ([edge, '-'] ++ more)) cs true 0 := by
        refine ⟨?_, by simp, by simp [hedge.dash.symm]⟩
        rw [dropBlanks_cons_of_not_blank hbrace]
        simp
      rw [sift_cons_of_keeps (hkept (by decide) hbrace), ih hstate]
    | succ left =>
      cases left with
      | succ left => exact h.elim
      | zero =>
        obtain ⟨rfl, ⟨more, rfl⟩, hcs⟩ := h
        obtain ⟨rfl, hmore⟩ := List.cons_prefix_cons.mp hcs
        have hstate : AfterState edge (edge :: (['-'] ++ more)) cs true 1 := ⟨rfl, by simp, hmore⟩
        rw [sift_cons_of_keeps (hkept hedge.dash hedge.blank), ih hstate]
  | case3 after c cs hmark ih =>
    rw [Bool.and_eq_true, beq_iff_eq, List.isPrefixOf_iff_prefix] at hmark
    obtain ⟨rfl, hcs⟩ := hmark
    have hdrop : afterRule edge before '-' (cs ++ []) :=
      afterRule_iff.mpr (.inl ⟨rfl, by simpa using hcs⟩)
    have hstate : AfterState edge ('-' :: before) cs true 2 := ⟨rfl, by simp, hcs⟩
    rw [sift_cons_of_drops hdrop, ih hstate]
  | case4 after c cs hmark hblank ih =>
    rw [Bool.and_eq_true] at hblank
    obtain ⟨hafter, hc⟩ := hblank
    have hdash : c ≠ '-' := by rintro rfl; cases hc
    have hne : c ≠ edge := by rintro rfl; rw [hedge.blank] at hc; cases hc
    have hdrop : afterRule edge before c (cs ++ []) := afterRule_iff.mpr (.inr ⟨hc, h.1.mp hafter⟩)
    have hstate : AfterState edge (c :: before) cs true 0 := by
      refine ⟨?_, by simp [hdash.symm], by simp [hne.symm]⟩
      rw [dropBlanks_cons_of_blank hc]
      exact iff_of_true rfl (h.1.mp hafter)
    rw [sift_cons_of_drops hdrop, ih hstate]
  | case5 after c cs hmark hblank ih =>
    rw [Bool.and_eq_true, beq_iff_eq, List.isPrefixOf_iff_prefix] at hmark
    rw [Bool.and_eq_true] at hblank
    have hkeep : afterRule edge before c (cs ++ []) = false := by
      rw [Bool.eq_false_iff, Ne, afterRule_iff, List.append_nil]
      rintro (hdash | ⟨hc, hbefore⟩)
      · exact hmark hdash
      · exact hblank ⟨h.1.mpr hbefore, hc⟩
    rw [sift_cons_of_keeps hkeep, ih ⟨?_, ?_, ?_⟩]
    · refine iff_of_false nofun fun hbefore => ?_
      cases hc : isBlank c with
      | true =>
        rw [dropBlanks_cons_of_blank hc] at hbefore
        exact hblank ⟨h.1.mpr hbefore, hc⟩
      | false =>
        rw [dropBlanks_cons_of_not_blank hc] at hbefore
        obtain ⟨rfl, hmore⟩ := List.cons_prefix_cons.mp hbefore
        exact h.2.2 ⟨hmore, by simp⟩
    · rintro ⟨hc, hcs⟩
      obtain ⟨rfl, -⟩ := List.cons_prefix_cons.mp hc
      exact hmark ⟨rfl, hcs⟩
    · rintro ⟨hc, hcs⟩
      obtain ⟨rfl, hbefore⟩ := List.cons_prefix_cons.mp hc
      exact h.2.1 ⟨hbefore, List.cons_prefix_cons.mpr ⟨rfl, hcs⟩⟩

/-- Of an opening marker as many characters are still to come as are left. -/
def BeforeState (edge : Char) (before cs : List Char) : Nat → Prop
  | 0 => ¬ (['{'] <+: before ∧ [edge, '-'] <+: cs) ∧ ¬ ([edge, '{'] <+: before ∧ ['-'] <+: cs)
  | 1 => [edge, '{'] <+: before ∧ ['-'] <+: cs
  | 2 => ['{'] <+: before ∧ [edge, '-'] <+: cs
  | _ => False

theorem dropBefore_eq_sift {edge : Char} (hedge : IsEdge edge) {left : Nat}
    {before cs : List Char} (h : BeforeState edge before cs left) :
    dropBefore edge left cs = sift (beforeRule edge) before [] cs := by
  fun_induction dropBefore edge left cs generalizing before with
  | case1 => rfl
  | case2 left c cs ih =>
    cases left with
    | succ left => exact h.elim
    | zero =>
      obtain ⟨⟨more, rfl⟩, hcs⟩ := h
      obtain ⟨rfl, hmore⟩ := List.cons_prefix_cons.mp hcs
      have hkeep : beforeRule edge (['{'] ++ more) edge (cs ++ []) = false := by
        rw [Bool.eq_false_iff, Ne, beforeRule_iff]
        simp [hedge.dash, hedge.blank]
      have hstate : BeforeState edge (edge :: (['{'] ++ more)) cs 1 := ⟨by simp, hmore⟩
      rw [sift_cons_of_keeps hkeep, ih hstate]
  | case3 c cs ih =>
    obtain ⟨⟨more, rfl⟩, hcs⟩ := h
    obtain ⟨rfl, -⟩ := List.cons_prefix_cons.mp hcs
    have hdrop : beforeRule edge ([edge, '{'] ++ more) '-' (cs ++ []) :=
      beforeRule_iff.mpr (.inl ⟨rfl, List.prefix_append ..⟩)
    have hstate : BeforeState edge ('-' :: ([edge, '{'] ++ more)) cs 0 :=
      ⟨by simp, by simp [hedge.dash]⟩
    rw [sift_cons_of_drops hdrop, ih hstate]
  | case4 c cs hmark ih =>
    rw [Bool.and_eq_true, List.isPrefixOf_iff_prefix] at hmark
    have hdrop : beforeRule edge before c (cs ++ []) := by
      rw [beforeRule_iff, List.append_nil]
      exact .inr hmark
    rw [sift_cons_of_drops hdrop, ih ⟨?_, ?_⟩]
    · rintro ⟨hc, -⟩
      obtain ⟨rfl, -⟩ := List.cons_prefix_cons.mp hc
      cases hmark.1
    · rintro ⟨hc, -⟩
      obtain ⟨rfl, -⟩ := List.cons_prefix_cons.mp hc
      rw [hedge.blank] at hmark
      cases hmark.1
  | case5 c cs hmark ih =>
    rw [Bool.and_eq_true, List.isPrefixOf_iff_prefix] at hmark
    have hkeep : beforeRule edge before c (cs ++ []) = false := by
      rw [Bool.eq_false_iff, Ne, beforeRule_iff, List.append_nil]
      rintro (⟨rfl, hbefore⟩ | hblank)
      · exact h.2 ⟨hbefore, by simp⟩
      · exact hmark hblank
    rw [sift_cons_of_keeps hkeep, ih]
    split_ifs with hopen
    · rw [List.isPrefixOf_iff_prefix] at hopen
      obtain ⟨rfl, hcs⟩ := List.cons_prefix_cons.mp hopen
      exact ⟨by simp, hcs⟩
    · refine ⟨fun hno => hopen ?_, fun hno => ?_⟩
      · obtain ⟨rfl, -⟩ := List.cons_prefix_cons.mp hno.1
        exact List.isPrefixOf_iff_prefix.mpr (List.cons_prefix_cons.mpr ⟨rfl, hno.2⟩)
      · obtain ⟨rfl, hbefore⟩ := List.cons_prefix_cons.mp hno.1
        exact h.1 ⟨hbefore, List.cons_prefix_cons.mpr ⟨rfl, hno.2⟩⟩

end ChatTemplate.Layout
