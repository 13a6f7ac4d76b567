import ChatTemplate.Proofs.Layout.Sift

/-!
# How far the passes over a text look

Whether a pass deletes a character is settled by the three characters on either side of it that are
no blanks of the same run. So a text falls apart at three characters in a row that are no blanks:
`Local.sift_around` passes over what stands before them, themselves, and what stands behind them.
-/

namespace ChatTemplate.Layout
open Text

/-- Three characters that are no blanks. -/
structure IsWall (s : List Char) : Prop where
  length : s.length = 3
  solid : ∀ c ∈ s, isBlank c = false

theorem IsWall.reverse {s : List Char} (h : IsWall s) : IsWall s.reverse :=
  ⟨by rw [List.length_reverse, h.length], fun c hc => h.solid c (List.mem_reverse.mp hc)⟩

theorem IsWall.head {s : List Char} (h : IsWall s) : ∃ c cs, s = c :: cs ∧ isBlank c = false := by
  cases s with
  | nil => cases h.length
  | cons c cs => exact ⟨c, cs, rfl, h.solid c List.mem_cons_self⟩

theorem not_isSpaceOrTab {c : Char} (h : isBlank c = false) : isSpaceOrTab c = false := by
  rw [Bool.eq_false_iff]
  intro hc
  rw [isSpaceOrTab, Bool.or_eq_true, beq_iff_eq, beq_iff_eq] at hc
  rcases hc with rfl | rfl <;> cases h

theorem isBlank_of_isSpaceOrTab {c : Char} (h : isSpaceOrTab c) : isBlank c := by
  by_contra hc
  rw [not_isSpaceOrTab (Bool.eq_false_iff.mpr hc)] at h
  cases h

theorem dropWhile_append_of_head {p : Char → Bool} {c : Char} (h : p c = false) (r s : List Char) :
    (r ++ c :: s).dropWhile p = r.dropWhile p ++ c :: s := by
  rw [List.dropWhile_append]
  split_ifs with hr
  · rw [List.isEmpty_iff.mp hr, List.dropWhile_cons_of_neg (by simp [h]), List.nil_append]
  · rfl

theorem isPrefixOf_append_of_le {word l : List Char} (h : word.length ≤ l.length) (s : List Char) :
    word.isPrefixOf (l ++ s) = word.isPrefixOf l := by
  rw [Bool.eq_iff_iff, List.isPrefixOf_iff_prefix, List.isPrefixOf_iff_prefix]
  constructor
  · exact fun hword => List.prefix_of_prefix_length_le hword (List.prefix_append l s) h
  · exact fun hword => hword.trans (List.prefix_append l s)

theorem prefix_append_iff_of_le {word l : List Char} (h : word.length ≤ l.length) (s : List Char) :
    word <+: l ++ s ↔ word <+: l := by
  rw [← List.isPrefixOf_iff_prefix, isPrefixOf_append_of_le h, List.isPrefixOf_iff_prefix]

theorem startsTag_iff {cs : List Char} : startsTag cs ↔ ∃ e, isTagEdge e ∧ ['{', e] <+: cs := by
  unfold startsTag
  split
  · simp
  · rename_i hno
    refine iff_of_false nofun ?_
    rintro ⟨e, -, rest, rfl⟩
    exact hno e rest rfl

theorem startsTag_append_of_le {l : List Char} (h : 2 ≤ l.length) (s : List Char) :
    startsTag (l ++ s) = startsTag l := by
  rw [Bool.eq_iff_iff, startsTag_iff, startsTag_iff]
  exact exists_congr fun e => and_congr_right fun _ => @prefix_append_iff_of_le ['{', e] l h s

theorem endsTag_append_of_le {l : List Char} (h : 2 ≤ l.length) (s : List Char) :
    endsTag (l ++ s) = endsTag l := by
  rw [Bool.eq_iff_iff, endsTag_iff, endsTag_iff]
  exact exists_congr fun e => and_congr_right fun _ => @prefix_append_iff_of_le ['}', e] l h s

/-- What stands behind a gap: it begins with a blank, or with a tag of its own. A text before a tag
is apart from it by the brace that opens it, a text behind a tag (read backwards) by the brace that
closes it. -/
def Apart (brace : Char) (y : List Char) : Prop :=
  ∀ x z, y = x :: z → isBlank x ∨ x = brace ∧ ¬ ['-'] <+: z

/-- No part of the word begins a text that is apart. -/
def Joined (brace : Char) : List Char → Prop
  | [] => True
  | x :: z => isBlank x = false ∧ (x = brace → ['-'] <+: z) ∧ Joined brace z

theorem prefix_append_iff_of_apart {brace : Char} {word r y : List Char} (hy : Apart brace y)
    (hword : Joined brace word) : word <+: r ++ y ↔ word <+: r := by
  induction word generalizing r with
  | nil => simp
  | cons x z ih =>
    obtain ⟨hblank, hbrace, hz⟩ := hword
    cases r with
    | cons a r =>
      rw [List.cons_append, List.cons_prefix_cons, List.cons_prefix_cons, ih hz]
    | nil =>
      refine iff_of_false ?_ (by simp)
      rintro ⟨rest, hrest⟩
      rcases hy x (z ++ rest) hrest.symm with hx | ⟨hx, hz⟩
      · rw [hblank] at hx
        cases hx
      · exact hz ((hbrace hx).trans (List.prefix_append z rest))

/-- A front of the text that is not empty takes the first character of the word with it. -/
theorem prefix_append_iff_of_apart_tail {brace a : Char} {word r y : List Char}
    (hy : Apart brace y) (hword : Joined brace word) (hr : r ≠ []) :
    a :: word <+: r ++ y ↔ a :: word <+: r := by
  cases r with
  | nil => exact absurd rfl hr
  | cons b r =>
    rw [List.cons_append, List.cons_prefix_cons, List.cons_prefix_cons,
      prefix_append_iff_of_apart hy hword]

/-- The rule of a pass that looks no further than a wall, and not across the gap before a tag that
opens or behind a tag that closes. -/
structure Local (drops : Rule) : Prop where
  loose {before c after} : drops before c after → isBlank c ∨ c = '-'
  ahead {s} (hs : IsWall s) (before c r x) :
    drops before c (r ++ (s ++ x)) = drops before c (r ++ s)
  back {s} (hs : IsWall s) (l x c after) :
    drops (l ++ (s ++ x)) c after = drops (l ++ s) c after
  gapAhead {y r : List Char} {q c : Char} (hy : Apart '{' y) (before)
    (hq : isBlank q = false) (h : [q] <:+ c :: r) : drops before c (r ++ y) = drops before c r
  gapBack {y l : List Char} {q c : Char} (hy : Apart '}' y) (after)
    (hq : isBlank q = false) (h : [q] <:+ c :: l) : drops (l ++ y) c after = drops l c after

section
variable {l r s x y : List Char} {c q : Char}

theorem IsWall.dropWhile_append {p : Char → Bool} (hs : IsWall s)
    (hp : ∀ c : Char, isBlank c = false → p c = false) (r x : List Char) :
    (r ++ (s ++ x)).dropWhile p = (r ++ s).dropWhile p ++ x ∧
      3 ≤ ((r ++ s).dropWhile p).length := by
  obtain ⟨c, cs, rfl, hc⟩ := hs.head
  have hlength : cs.length + 1 = 3 := hs.length
  rw [List.cons_append, dropWhile_append_of_head (hp c hc), dropWhile_append_of_head (hp c hc),
    List.append_assoc, List.cons_append, List.length_append, List.length_cons]
  exact ⟨rfl, by omega⟩

theorem dropBlanks_append_wall (hs : IsWall s) (r x : List Char) :
    dropBlanks (r ++ (s ++ x)) = dropBlanks (r ++ s) ++ x ∧ 3 ≤ (dropBlanks (r ++ s)).length :=
  hs.dropWhile_append (fun _ h => h) r x

/-- A text that ends with no blank keeps its end. -/
theorem dropWhile_append_of_solid {p : Char → Bool} (hq : p q = false) (h : [q] <:+ r)
    (y : List Char) : (r ++ y).dropWhile p = r.dropWhile p ++ y ∧ r.dropWhile p ≠ [] := by
  obtain ⟨r, rfl⟩ := h
  rw [List.append_assoc, List.singleton_append, dropWhile_append_of_head hq,
    dropWhile_append_of_head hq, List.append_assoc]
  exact ⟨rfl, by simp⟩

theorem dropBlanks_append_of_solid (hq : isBlank q = false) (h : [q] <:+ r) (y : List Char) :
    dropBlanks (r ++ y) = dropBlanks r ++ y ∧ dropBlanks r ≠ [] :=
  dropWhile_append_of_solid hq h y

theorem suffix_of_blank (hc : isBlank c) (hq : isBlank q = false) (h : [q] <:+ c :: r) :
    [q] <:+ r := by
  rcases List.suffix_cons_iff.mp h with h | h
  · obtain ⟨rfl, -⟩ := List.cons.inj h
    rw [hq] at hc
    cases hc
  · exact h

theorem isTagEdge_solid (h : isTagEdge c) : isBlank c = false ∧ c ≠ '{' ∧ c ≠ '}' := by
  simp only [isTagEdge, Bool.or_eq_true, beq_iff_eq] at h
  rcases h with (rfl | rfl) | rfl <;> decide

end

/-! ### The rules of the passes are local -/

theorem stripRule_local : Local stripRule where
  loose {_ c _} h := by
    simp only [stripRule, Bool.and_eq_true] at h
    exact .inl (isBlank_of_isSpaceOrTab h.1.1)
  ahead hs before c r x := by
    obtain ⟨hdrop, hlength⟩ := hs.dropWhile_append (fun _ => not_isSpaceOrTab) r x
    rw [stripRule, stripRule, hdrop, startsTag_append_of_le (by omega)]
  back hs l x c after := by
    obtain ⟨hdrop, hlength⟩ := hs.dropWhile_append (fun _ => not_isSpaceOrTab) l x
    rw [stripRule, stripRule, atLineStart, hdrop, List.head?_append_of_ne_nil, atLineStart]
    exact List.ne_nil_of_length_pos (by omega)
  gapAhead {y r q c} hy before hq h := by
    cases hc : isSpaceOrTab c with
    | false => simp [stripRule, hc]
    | true =>
      have hr := suffix_of_blank (isBlank_of_isSpaceOrTab hc) hq h
      obtain ⟨hdrop, hne⟩ := dropWhile_append_of_solid (not_isSpaceOrTab hq) hr y
      have hstarts : startsTag (r.dropWhile isSpaceOrTab ++ y) =
          startsTag (r.dropWhile isSpaceOrTab) := by
        rw [Bool.eq_iff_iff, startsTag_iff, startsTag_iff]
        refine exists_congr fun e => and_congr_right fun he => ?_
        obtain ⟨hblank, hopen, -⟩ := isTagEdge_solid he
        exact prefix_append_iff_of_apart_tail hy ⟨hblank, fun h => absurd h hopen, trivial⟩ hne
      rw [stripRule, stripRule, hdrop, hstarts]
  gapBack {y l q c} hy after hq h := by
    cases hc : isSpaceOrTab c with
    | false => simp [stripRule, hc]
    | true =>
      have hl := suffix_of_blank (isBlank_of_isSpaceOrTab hc) hq h
      obtain ⟨hdrop, hne⟩ := dropWhile_append_of_solid (not_isSpaceOrTab hq) hl y
      rw [stripRule, stripRule, atLineStart, hdrop, List.head?_append_of_ne_nil _ hne, atLineStart]

theorem trimRule_local : Local trimRule where
  loose {_ c _} h := by
    rw [trimRule, Bool.and_eq_true, beq_iff_eq] at h
    exact .inl (by rw [h.1]; rfl)
  ahead _ _ _ _ _ := rfl
  back {s} hs l x c after := by
    have hlength : 2 ≤ (l ++ s).length := by rw [List.length_append, hs.length]; omega
    rw [trimRule, trimRule, ← List.append_assoc, endsTag_append_of_le hlength]
  gapAhead _ _ _ _ := rfl
  gapBack {y l q c} hy after hq h := by
    cases hc : c == '\n' with
    | false => simp only [trimRule, hc, Bool.false_and]
    | true =>
      obtain rfl := beq_iff_eq.mp hc
      have hl : l ≠ [] := by
        rintro rfl
        have hend := suffix_of_blank (by decide) hq h
        exact absurd hend (by simp)
      have hends : endsTag (l ++ y) = endsTag l := by
        rw [Bool.eq_iff_iff, endsTag_iff, endsTag_iff]
        refine exists_congr fun e => and_congr_right fun he => ?_
        obtain ⟨hblank, -, hclose⟩ := isTagEdge_solid he
        exact prefix_append_iff_of_apart_tail hy ⟨hblank, fun h => absurd h hclose, trivial⟩ hl
      rw [trimRule, trimRule, hends]

/-- The edge of a tag can be told from the brace on its other side. -/
theorem afterRule_local {edge : Char} (hedge : IsEdge edge) (hopen : edge ≠ '{') :
    Local (afterRule edge) where
  loose h := by
    rcases afterRule_iff.mp h with h | h
    · exact .inr h.1
    · exact .inl h.1
  ahead {s} hs before c r x := by
    have hlength : [edge, '}'].length ≤ (r ++ s).length := by
      rw [List.length_append, hs.length]; simp
    rw [afterRule, afterRule, ← List.append_assoc, isPrefixOf_append_of_le hlength]
  back {s} hs l x c after := by
    obtain ⟨hdrop, hlength⟩ := dropBlanks_append_wall hs l x
    have hlength : ['}', edge, '-'].length ≤ (dropBlanks (l ++ s)).length := hlength
    rw [Bool.eq_iff_iff, afterRule_iff, afterRule_iff, hdrop, prefix_append_iff_of_le hlength]
  gapAhead {y r q c} hy before hq h := by
    have hword : Joined '{' [edge, '}'] :=
      ⟨hedge.blank, fun h => absurd h hopen, by decide, by decide, trivial⟩
    rw [Bool.eq_iff_iff, afterRule_iff, afterRule_iff, prefix_append_iff_of_apart hy hword]
  gapBack {y l q c} hy after hq h := by
    rw [Bool.eq_iff_iff, afterRule_iff, afterRule_iff]
    refine or_congr_right (and_congr_right fun hc => ?_)
    obtain ⟨hdrop, hne⟩ := dropBlanks_append_of_solid hq (suffix_of_blank hc hq h) y
    have hword : Joined '}' [edge, '-'] :=
      ⟨hedge.blank, fun _ => List.prefix_refl _, by decide, by decide, trivial⟩
    rw [hdrop, prefix_append_iff_of_apart_tail hy hword hne]

theorem beforeRule_local {edge : Char} (hedge : IsEdge edge) (hclose : edge ≠ '}') :
    Local (beforeRule edge) where
  loose h := by
    rcases beforeRule_iff.mp h with h | h
    · exact .inr h.1
    · exact .inl h.1
  ahead {s} hs before c r x := by
    obtain ⟨hdrop, hlength⟩ := dropBlanks_append_wall hs r x
    have hlength : (opener edge).length ≤ (dropBlanks (r ++ s)).length := hlength
    rw [Bool.eq_iff_iff, beforeRule_iff, beforeRule_iff, hdrop, prefix_append_iff_of_le hlength]
  back {s} hs l x c after := by
    have hlength : [edge, '{'].length ≤ (l ++ s).length := by
      rw [List.length_append, hs.length]; simp
    rw [beforeRule, beforeRule, ← List.append_assoc, isPrefixOf_append_of_le hlength]
  gapAhead {y r q c} hy before hq h := by
    rw [Bool.eq_iff_iff, beforeRule_iff, beforeRule_iff]
    refine or_congr_right (and_congr_right fun hc => ?_)
    obtain ⟨hdrop, hne⟩ := dropBlanks_append_of_solid hq (suffix_of_blank hc hq h) y
    have hword : Joined '{' [edge, '-'] :=
      ⟨hedge.blank, fun _ => List.prefix_refl _, by decide, by decide, trivial⟩
    rw [hdrop, opener, prefix_append_iff_of_apart_tail hy hword hne]
  gapBack {y l q c} hy after hq h := by
    have hword : Joined '}' [edge, '{'] :=
      ⟨hedge.blank, fun h => absurd h hclose, by decide, by decide, trivial⟩
    rw [Bool.eq_iff_iff, beforeRule_iff, beforeRule_iff, prefix_append_iff_of_apart hy hword]

/-! ### A text falls apart -/

section
variable {drops : Rule} {u v m y : List Char}

theorem Local.sift_around (h : Local drops) (hm : IsWall m) (p q : List Char) :
    sift drops [] [] (p ++ (m ++ q)) =
      sift drops [] m p ++ (sift drops p.reverse q m ++ sift drops m.reverse [] q) := by
  have hfront : sift drops [] (m ++ q ++ []) p = sift drops [] m p := by
    refine sift_congr fun l c r _ => ?_
    rw [List.append_nil, List.append_nil, h.ahead hm]
  have hback : sift drops (m.reverse ++ (p.reverse ++ [])) [] q = sift drops m.reverse [] q := by
    refine sift_congr fun l c r _ => ?_
    rw [h.back hm.reverse]
  rw [sift_append, sift_append, hfront, hback, List.append_nil, List.append_nil]

theorem Local.sift_before_gap (h : Local drops) (hy : Apart '{' y)
    (hu : ∀ q, [q] <:+ u → isBlank q = false) : sift drops [] y u = sift drops [] [] u := by
  refine sift_congr fun l c r hsplit => ?_
  have hend : [(c :: r).getLast (by simp)] <:+ c :: r :=
    ⟨(c :: r).dropLast, List.dropLast_append_getLast _⟩
  have hlast := hu _ (hend.trans ⟨l, hsplit.symm⟩)
  rw [h.gapAhead hy _ hlast hend, List.append_nil, List.append_nil]

theorem Local.sift_behind_gap (h : Local drops) (hy : Apart '}' y)
    (hv : ∀ q, [q] <+: v → isBlank q = false) : sift drops y [] v = sift drops [] [] v := by
  refine sift_congr fun l c r hsplit => ?_
  cases v with
  | nil => simp at hsplit
  | cons q v =>
    have hhead : isBlank q = false := hv q (by simp)
    have hend : [q] <:+ c :: l.reverse := by
      cases l with
      | nil =>
        obtain ⟨rfl, -⟩ := List.cons.inj hsplit
        exact List.suffix_refl _
      | cons a l =>
        obtain ⟨rfl, -⟩ := List.cons.inj hsplit
        exact ⟨c :: l.reverse, by simp⟩
    rw [h.gapBack hy _ hhead hend, List.append_nil, List.append_nil]

end

end ChatTemplate.Layout
