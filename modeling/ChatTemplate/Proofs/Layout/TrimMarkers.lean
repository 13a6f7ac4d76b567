import ChatTemplate.Proofs.Layout.Words

/-!
# The blanks beside a trim dash

A marker with a dash, such as `-%}` or `{%-`, makes the blanks on its outer side irrelevant: whether
they are there or not, the layout gives the same text. Until it is the marker's turn the passes keep
the marker and some of the blanks (`BlanksBehind`, `BlanksBefore`); its own pass takes all that are
left. The dash has to last until then. A marker of another kind that shares the dash would take it,
and so would one that an earlier pass forms around it (`captures`).
-/

namespace ChatTemplate.Layout
open Text

/-- The closing marker of a tag of the given edge. -/
def closer (edge : Char) : List Char := ['-', edge, '}']

/-! ### One pass over the text around a marker -/

section
variable {drops : Rule} {edge : Char} {t t' : List Char}

theorem closer_isWall (hedge : IsEdge edge) : IsWall (closer edge) := by
  refine ⟨rfl, fun c hc => ?_⟩
  simp only [closer, List.mem_cons, List.not_mem_nil, or_false] at hc
  rcases hc with rfl | rfl | rfl
  · decide
  · exact hedge.blank
  · decide

theorem opener_isWall (hedge : IsEdge edge) : IsWall (opener edge) := by
  refine ⟨rfl, fun c hc => ?_⟩
  simp only [opener, List.mem_cons, List.not_mem_nil, or_false] at hc
  rcases hc with rfl | rfl | rfl
  · decide
  · exact hedge.blank
  · decide

theorem Local.keeps_edge (h : Local drops) (hedge : IsEdge edge) (before after : List Char) :
    drops before edge after = false :=
  Bool.eq_false_iff.mpr fun hdrop => hedge.not_loose (h.loose hdrop)

theorem Local.keeps_openBrace (h : Local drops) (before after : List Char) :
    drops before '{' after = false :=
  Bool.eq_false_iff.mpr fun hdrop => not_loose_openBrace (h.loose hdrop)

theorem Local.keeps_closeBrace (h : Local drops) (before after : List Char) :
    drops before '}' after = false := by
  rw [Bool.eq_false_iff]
  intro hdrop
  rcases h.loose hdrop with hc | hc <;> cases hc

/-- A pass that keeps the dash keeps the marker. -/
theorem Local.sift_closer (h : Local drops) (hedge : IsEdge edge) {before after : List Char}
    (hdash : drops before '-' ([edge, '}'] ++ after) = false) :
    sift drops before after (closer edge) = closer edge := by
  rw [closer, sift_cons_of_keeps hdash, sift_cons_of_keeps (h.keeps_edge hedge ..),
    sift_cons_of_keeps (h.keeps_closeBrace ..), sift]

theorem Local.sift_opener (h : Local drops) (hedge : IsEdge edge) {before after : List Char}
    (hdash : drops (edge :: '{' :: before) '-' after = false) :
    sift drops before after (opener edge) = opener edge := by
  rw [opener, sift_cons_of_keeps (h.keeps_openBrace ..), sift_cons_of_keeps (h.keeps_edge hedge ..),
    sift_cons_of_keeps hdash, sift]

/-- Two texts that differ in the blanks behind a closing marker only. The text before the marker
does not end with an opening brace and one of the given edges, whose dash the marker's would be. -/
def BlanksBehind (edge : Char) (edges : List Char) (t t' : List Char) : Prop :=
  ∃ u w w' v, t = u ++ (closer edge ++ (w ++ v)) ∧ t' = u ++ (closer edge ++ (w' ++ v)) ∧
    (∀ c ∈ w, isBlank c) ∧ (∀ c ∈ w', isBlank c) ∧ ∀ q ∈ edges, ¬ ['{', q] <:+ u

/-- Two texts that differ in the blanks before an opening marker only, the text behind which begins
with none of the words. -/
def BlanksBefore (edge : Char) (words : List (List Char)) (t t' : List Char) : Prop :=
  ∃ u w w' v, t = u ++ (w ++ (opener edge ++ v)) ∧ t' = u ++ (w' ++ (opener edge ++ v)) ∧
    (∀ c ∈ w, isBlank c) ∧ (∀ c ∈ w', isBlank c) ∧ ∀ s ∈ words, ¬ s <+: v

theorem exists_blanks_front (v : List Char) :
    ∃ w v', v = w ++ v' ∧ (∀ c ∈ w, isBlank c) ∧ ∀ q, [q] <+: v' → isBlank q = false := by
  induction v with
  | nil => exact ⟨[], [], rfl, by simp, by simp⟩
  | cons c v ih =>
    cases hc : isBlank c with
    | false =>
      refine ⟨[], c :: v, rfl, by simp, fun q hq => ?_⟩
      obtain ⟨rfl, -⟩ := List.cons_prefix_cons.mp hq
      exact hc
    | true =>
      obtain ⟨w, v', rfl, hw, hv'⟩ := ih
      exact ⟨c :: w, v', rfl, List.forall_mem_cons.mpr ⟨hc, hw⟩, hv'⟩

theorem exists_blanks_end (u : List Char) :
    ∃ u' w, u = u' ++ w ∧ (∀ c ∈ w, isBlank c) ∧ ∀ q, [q] <:+ u' → isBlank q = false := by
  obtain ⟨w, v, hsplit, hw, hv⟩ := exists_blanks_front u.reverse
  refine ⟨v.reverse, w.reverse, ?_, fun c hc => hw c (List.mem_reverse.mp hc), fun q hq => hv q ?_⟩
  · rw [← List.reverse_append, ← hsplit, List.reverse_reverse]
  · simpa using List.reverse_prefix.mpr hq

/-- Behind a closing marker what stands behind the gap does not see the marker. -/
theorem apart_closeBrace {w : List Char} (hedge : IsEdge edge) (hw : ∀ c ∈ w, isBlank c)
    (before : List Char) : Apart '}' (w.reverse ++ ((closer edge).reverse ++ before)) := by
  intro x z h
  cases hrev : w.reverse with
  | nil =>
    rw [hrev] at h
    obtain ⟨rfl, rfl⟩ := List.cons.inj h
    exact .inr ⟨rfl, fun hz => hedge.dash (List.cons_prefix_cons.mp hz).1.symm⟩
  | cons a w' =>
    rw [hrev] at h
    obtain ⟨rfl, -⟩ := List.cons.inj h
    exact .inl (hw a (List.mem_reverse.mp (hrev ▸ List.mem_cons_self)))

theorem apart_openBrace {w : List Char} (hedge : IsEdge edge) (hw : ∀ c ∈ w, isBlank c)
    (after : List Char) : Apart '{' (w ++ (opener edge ++ after)) := by
  intro x z h
  cases w with
  | nil =>
    obtain ⟨rfl, rfl⟩ := List.cons.inj h
    exact .inr ⟨rfl, fun hz => hedge.dash (List.cons_prefix_cons.mp hz).1.symm⟩
  | cons a w =>
    obtain ⟨rfl, -⟩ := List.cons.inj h
    exact .inl (hw a List.mem_cons_self)

/-- What a pass makes of a closing marker, the blanks behind it and the rest. -/
theorem Local.sift_around_closer (h : Local drops) (hedge : IsEdge edge) {w v : List Char}
    (hw : ∀ c ∈ w, isBlank c) (hv : ∀ q, [q] <+: v → isBlank q = false) (u : List Char) :
    sift drops [] [] (u ++ (closer edge ++ (w ++ v))) =
      sift drops [] (closer edge) u ++ (sift drops u.reverse (w ++ v) (closer edge) ++
        (sift drops (closer edge).reverse v w ++ sift drops [] [] v)) := by
  rw [h.sift_around (closer_isWall hedge), sift_append _ _ _ w v, List.append_nil]
  have hgap := apart_closeBrace hedge hw []
  rw [List.append_nil] at hgap
  rw [h.sift_behind_gap hgap hv]

/-- What a pass makes of an opening marker, the blanks before it and the rest. -/
theorem Local.sift_around_opener (h : Local drops) (hedge : IsEdge edge) {u w : List Char}
    (hw : ∀ c ∈ w, isBlank c) (hu : ∀ q, [q] <:+ u → isBlank q = false) (v : List Char) :
    sift drops [] [] (u ++ (w ++ (opener edge ++ v))) =
      sift drops [] [] u ++ (sift drops u.reverse (opener edge) w ++
        (sift drops (u ++ w).reverse v (opener edge) ++
          sift drops (opener edge).reverse [] v)) := by
  have hgap := apart_openBrace hedge hw []
  rw [List.append_nil] at hgap
  rw [← List.append_assoc u, h.sift_around (opener_isWall hedge), sift_append _ _ _ u w,
    h.sift_before_gap hgap hu, List.append_nil, List.append_assoc]

/-- A pass that leaves the dash alone leaves the marker and some of the blanks, and no more. -/
theorem BlanksBehind.pass {edges edges' : List Char} (h : Local drops) (hedge : IsEdge edge)
    (hdash : ∀ u, (∀ q ∈ edges, ¬ ['{', q] <:+ u) → ∀ after,
      drops u.reverse '-' ([edge, '}'] ++ after) = false)
    (hsub : edges' ⊆ edges)
    (hold : ∀ q ∈ edges', HoldsBehind drops q (closer edge) ∧
      HoldsBehind drops '{' (q :: closer edge))
    (ht : BlanksBehind edge edges t t') :
    BlanksBehind edge edges' (sift drops [] [] t) (sift drops [] [] t') := by
  obtain ⟨u, w, w', v, rfl, rfl, hw, hw', hu⟩ := ht
  obtain ⟨wv, v, rfl, hwv, hv⟩ := exists_blanks_front v
  have hblank : ∀ {w : List Char}, (∀ c ∈ w, isBlank c) → ∀ c ∈ w ++ wv, isBlank c :=
    fun hw => List.forall_mem_append.mpr ⟨hw, hwv⟩
  have hpass : ∀ w : List Char, (∀ c ∈ w, isBlank c) →
      sift drops [] [] (u ++ (closer edge ++ (w ++ (wv ++ v)))) =
        sift drops [] (closer edge) u ++ (closer edge ++
          (sift drops (closer edge).reverse v (w ++ wv) ++ sift drops [] [] v)) := by
    intro w hw
    rw [← List.append_assoc w, h.sift_around_closer hedge (hblank hw) hv,
      h.sift_closer hedge (hdash u hu _)]
  refine ⟨_, _, _, _, hpass w hw, hpass w' hw', fun c hc => ?_, fun c hc => ?_, fun q hq hu' => ?_⟩
  · exact hblank hw c ((sift_sublist ..).subset hc)
  · exact hblank hw' c ((sift_sublist ..).subset hc)
  · exact hu q (hsub hq) (suffix_of_suffix_sift h (hold q hq).1 (hold q hq).2 hu')

theorem BlanksBefore.pass {words words' : List (List Char)} (h : Local drops) (hedge : IsEdge edge)
    (hdash : ∀ v, (∀ s ∈ words, ¬ s <+: v) → ∀ before,
      drops (edge :: '{' :: before) '-' v = false)
    (hwords : ∀ v, (∀ s ∈ words, ¬ s <+: v) →
      ∀ s ∈ words', ¬ s <+: sift drops (opener edge).reverse [] v)
    (ht : BlanksBefore edge words t t') :
    BlanksBefore edge words' (sift drops [] [] t) (sift drops [] [] t') := by
  obtain ⟨u, w, w', v, rfl, rfl, hw, hw', hv⟩ := ht
  obtain ⟨u, wu, rfl, hwu, hu⟩ := exists_blanks_end u
  have hblank : ∀ {w : List Char}, (∀ c ∈ w, isBlank c) → ∀ c ∈ wu ++ w, isBlank c :=
    fun hw => List.forall_mem_append.mpr ⟨hwu, hw⟩
  have hpass : ∀ w : List Char, (∀ c ∈ w, isBlank c) →
      sift drops [] [] (u ++ wu ++ (w ++ (opener edge ++ v))) =
        sift drops [] [] u ++ (sift drops u.reverse (opener edge) (wu ++ w) ++
          (opener edge ++ sift drops (opener edge).reverse [] v)) := by
    intro w hw
    rw [List.append_assoc u, ← List.append_assoc wu, h.sift_around_opener hedge (hblank hw) hu,
      h.sift_opener hedge (hdash v hv _)]
  refine ⟨_, _, _, _, hpass w hw, hpass w' hw', fun c hc => ?_, fun c hc => ?_, hwords v hv⟩
  · exact hblank hw c ((sift_sublist ..).subset hc)
  · exact hblank hw' c ((sift_sublist ..).subset hc)

/-- The pass of a closing marker takes the dash and all blanks behind the marker. -/
theorem BlanksBehind.own {edges : List Char} (hedge : IsEdge edge) (hopen : edge ≠ '{')
    (ht : BlanksBehind edge edges t t') :
    sift (afterRule edge) [] [] t = sift (afterRule edge) [] [] t' := by
  obtain ⟨u, w, w', v, rfl, rfl, hw, hw', -⟩ := ht
  obtain ⟨wv, v, rfl, hwv, hv⟩ := exists_blanks_front v
  have h := afterRule_local hedge hopen
  have hpass : ∀ w : List Char, (∀ c ∈ w, isBlank c) →
      sift (afterRule edge) [] [] (u ++ (closer edge ++ (w ++ (wv ++ v)))) =
        sift (afterRule edge) [] (closer edge) u ++
          ([edge, '}'] ++ sift (afterRule edge) [] [] v) := by
    intro w hw
    have hblank : ∀ c ∈ w ++ wv, isBlank c := List.forall_mem_append.mpr ⟨hw, hwv⟩
    have hdash : ∀ after, afterRule edge u.reverse '-' ([edge, '}'] ++ after) := fun after =>
      afterRule_iff.mpr (.inl ⟨rfl, List.prefix_append ..⟩)
    have hmarker : sift (afterRule edge) u.reverse (w ++ wv ++ v) (closer edge) = [edge, '}'] := by
      rw [closer, sift_cons_of_drops (hdash _), sift_cons_of_keeps (h.keeps_edge hedge ..),
        sift_cons_of_keeps (h.keeps_closeBrace ..), sift]
    have hgap : sift (afterRule edge) (closer edge).reverse v (w ++ wv) = [] := by
      refine sift_eq_nil fun l c r hsplit => afterRule_iff.mpr (.inr ⟨?_, ?_⟩)
      · exact hblank c (by rw [hsplit]; simp)
      · have hl : ∀ x ∈ l.reverse, isBlank x := fun x hx =>
          hblank x (by rw [hsplit]; exact List.mem_append_left _ (List.mem_reverse.mp hx))
        have hbrace : dropBlanks (l.reverse ++ '}' :: [edge, '-']) =
            dropBlanks l.reverse ++ '}' :: [edge, '-'] := dropWhile_append_of_head rfl ..
        have hnil : dropBlanks l.reverse = [] := List.dropWhile_eq_nil_iff.mpr hl
        change ['}', edge, '-'] <+: dropBlanks (l.reverse ++ '}' :: [edge, '-'])
        rw [hbrace, hnil]
        exact List.prefix_refl _
    rw [← List.append_assoc w, h.sift_around_closer hedge hblank hv, hmarker, hgap, List.nil_append]
  rw [hpass w hw, hpass w' hw']

/-- The pass of an opening marker takes the dash and all blanks before the marker. -/
theorem BlanksBefore.own {words : List (List Char)} (hedge : IsEdge edge) (hclose : edge ≠ '}')
    (ht : BlanksBefore edge words t t') :
    sift (beforeRule edge) [] [] t = sift (beforeRule edge) [] [] t' := by
  obtain ⟨u, w, w', v, rfl, rfl, hw, hw', -⟩ := ht
  obtain ⟨u, wu, rfl, hwu, hu⟩ := exists_blanks_end u
  have h := beforeRule_local hedge hclose
  have hpass : ∀ w : List Char, (∀ c ∈ w, isBlank c) →
      sift (beforeRule edge) [] [] (u ++ wu ++ (w ++ (opener edge ++ v))) =
        sift (beforeRule edge) [] [] u ++
          (['{', edge] ++ sift (beforeRule edge) (opener edge).reverse [] v) := by
    intro w hw
    have hblank : ∀ c ∈ wu ++ w, isBlank c := List.forall_mem_append.mpr ⟨hwu, hw⟩
    have hdash : ∀ before, beforeRule edge (edge :: '{' :: before) '-' ([] ++ v) := fun before =>
      beforeRule_iff.mpr (.inl ⟨rfl, List.prefix_append [edge, '{'] before⟩)
    have hmarker : sift (beforeRule edge) (u ++ (wu ++ w)).reverse v (opener edge) =
        ['{', edge] := by
      rw [opener, sift_cons_of_keeps (h.keeps_openBrace ..),
        sift_cons_of_keeps (h.keeps_edge hedge ..), sift_cons_of_drops (hdash _), sift]
    have hgap : sift (beforeRule edge) u.reverse (opener edge) (wu ++ w) = [] := by
      refine sift_eq_nil fun l c r hsplit => beforeRule_iff.mpr (.inr ⟨?_, ?_⟩)
      · exact hblank c (by rw [hsplit]; simp)
      · have hr : ∀ x ∈ r, isBlank x := fun x hx =>
          hblank x (by rw [hsplit]; exact List.mem_append_right _ (List.mem_cons_of_mem _ hx))
        have hbrace : dropBlanks (r ++ opener edge) = dropBlanks r ++ opener edge :=
          dropWhile_append_of_head rfl ..
        have hnil : dropBlanks r = [] := List.dropWhile_eq_nil_iff.mpr hr
        rw [hbrace, hnil]
        exact List.prefix_refl _
    rw [List.append_assoc u, ← List.append_assoc wu, h.sift_around_opener hedge hblank hu, hmarker,
      hgap, List.nil_append]
  rw [hpass w hw, hpass w' hw']

end

/-! ### The passes before a marker's own -/

theorem stripStarts_true_eq_sift (cs : List Char) :
    stripStarts true cs = sift stripRule [] [] cs :=
  stripStarts_eq_sift (fun _ => rfl) nofun

theorem trimEnds_zero_eq_sift (cs : List Char) : trimEnds 0 cs = sift trimRule [] [] cs :=
  trimEnds_eq_sift fun e _ => ⟨by simp, by simp⟩

theorem dropAfter_zero_eq_sift {edge : Char} (hedge : IsEdge edge) (cs : List Char) :
    dropAfter edge 0 false cs = sift (afterRule edge) [] [] cs :=
  dropAfter_eq_sift hedge ⟨by simp [dropBlanks], by simp, by simp⟩

theorem dropBefore_zero_eq_sift {edge : Char} (hedge : IsEdge edge) (cs : List Char) :
    dropBefore edge 0 cs = sift (beforeRule edge) [] [] cs :=
  dropBefore_eq_sift hedge ⟨by simp, by simp⟩

theorem dropLastNewline_append {y : List Char} (hy : y ≠ []) (x : List Char) :
    dropLastNewline (x ++ y) = x ++ dropLastNewline y := by
  rw [dropLastNewline, dropLastNewline, List.getLast?_append_of_ne_nil x hy,
    List.dropLast_append_of_ne_nil hy]
  split_ifs <;> rfl

theorem dropLastNewline_cons {c : Char} (hc : c ≠ '\n') (y : List Char) :
    dropLastNewline (c :: y) = c :: dropLastNewline y := by
  cases y with
  | nil => simp [dropLastNewline, hc]
  | cons a y => exact dropLastNewline_append (by simp) [c]

theorem dropLastNewline_front (cs : List Char) : dropLastNewline cs <+: cs := by
  unfold dropLastNewline
  split_ifs
  · exact List.dropLast_prefix cs
  · exact List.prefix_refl cs

section
variable {edge : Char} {edges t t' : List Char} {words : List (List Char)}

theorem BlanksBehind.dropLastNewline (ht : BlanksBehind edge edges t t') :
    BlanksBehind edge edges (dropLastNewline t) (dropLastNewline t') := by
  obtain ⟨u, w, w', v, rfl, rfl, hw, hw', hu⟩ := ht
  have hmarker : ∀ cs, Layout.dropLastNewline (u ++ (closer edge ++ cs)) =
      u ++ (closer edge ++ Layout.dropLastNewline cs) := by
    intro cs
    rw [dropLastNewline_append (by simp [closer])]
    congr 1
    have hbrace := dropLastNewline_append (y := '}' :: cs) (by simp) ['-', edge]
    rw [dropLastNewline_cons (by decide)] at hbrace
    exact hbrace
  cases v with
  | nil =>
    have hblank : ∀ {w : List Char}, (∀ c ∈ w, isBlank c) →
        ∀ c ∈ Layout.dropLastNewline w, isBlank c :=
      fun hw c hc => hw c ((dropLastNewline_front _).subset hc)
    refine ⟨u, _, _, [], ?_, ?_, hblank hw, hblank hw', hu⟩
    · rw [hmarker, List.append_nil, List.append_nil]
    · rw [hmarker, List.append_nil, List.append_nil]
  | cons a v =>
    refine ⟨u, w, w', Layout.dropLastNewline (a :: v), ?_, ?_, hw, hw', hu⟩
    · rw [hmarker, dropLastNewline_append (by simp)]
    · rw [hmarker, dropLastNewline_append (by simp)]

theorem BlanksBefore.dropLastNewline (ht : BlanksBefore edge words t t') :
    BlanksBefore edge words (dropLastNewline t) (dropLastNewline t') := by
  obtain ⟨u, w, w', v, rfl, rfl, hw, hw', hv⟩ := ht
  have hmarker : ∀ w : List Char, Layout.dropLastNewline (u ++ (w ++ (opener edge ++ v))) =
      u ++ (w ++ (opener edge ++ Layout.dropLastNewline v)) := by
    intro w
    rw [dropLastNewline_append (by simp [opener]), dropLastNewline_append (by simp [opener])]
    congr 2
    have hdash := dropLastNewline_append (y := '-' :: v) (by simp) ['{', edge]
    rw [dropLastNewline_cons (by decide)] at hdash
    exact hdash
  exact ⟨u, w, w', _, hmarker w, hmarker w', hw, hw',
    fun s hs hfront => hv s hs (hfront.trans (dropLastNewline_front v))⟩

/-- What can be decided of each character of a list. -/
theorem forall_mem_of_all {p : Char → Prop} [DecidablePred p] {cs : List Char}
    (h : cs.all fun c => p c) : ∀ c ∈ cs, p c := by
  simpa using h

theorem forall_mem_mem_of_all {p : Char → Prop} [DecidablePred p] {words : List (List Char)}
    (h : words.flatten.all fun c => p c) : ∀ s ∈ words, ∀ c ∈ s, p c :=
  fun _ hs c hc => forall_mem_of_all h c (List.mem_flatten_of_mem hs hc)

theorem BlanksBehind.strip (hedge : IsEdge edge) (hedges : edges ⊆ ['%', '{'])
    (ht : BlanksBehind edge edges t t') :
    BlanksBehind edge edges (sift stripRule [] [] t) (sift stripRule [] [] t') := by
  refine ht.pass stripRule_local hedge (fun u _ after => rfl) (List.Subset.refl _) fun q hq => ?_
  have hblank : ∀ q ∈ ['%', '{'], isBlank q = false := forall_mem_of_all (by decide)
  exact ⟨stripRule_holdsBehind (hblank q (hedges hq)), stripRule_holdsBehind rfl⟩

theorem BlanksBehind.trim (hedge : IsEdge edge) (hedges : edges ⊆ ['%', '{'])
    (ht : BlanksBehind edge edges t t') :
    BlanksBehind edge edges (sift trimRule [] [] t) (sift trimRule [] [] t') := by
  refine ht.pass trimRule_local hedge (fun u _ after => rfl) (List.Subset.refl _) fun q hq => ?_
  have hclose : ∀ q ∈ ['%', '{'], q ≠ '}' := forall_mem_of_all (by decide)
  exact ⟨trimRule_holdsBehind (hclose q (hedges hq)), trimRule_holdsBehind (by decide)⟩

/-- The pass of another closing marker. -/
theorem BlanksBehind.after {other : Char} (hedge : IsEdge edge) (hother : IsEdge other)
    (hne : other ≠ edge) (hopen : other ≠ '{') (hedges : edges ⊆ ['%', '{'])
    (ht : BlanksBehind edge edges t t') :
    BlanksBehind edge edges (sift (afterRule other) [] [] t) (sift (afterRule other) [] [] t') := by
  refine ht.pass (afterRule_local hother hopen) hedge (fun u _ after => ?_) (List.Subset.refl _)
    fun q hq => ⟨?_, ?_⟩
  · rw [Bool.eq_false_iff, Ne, afterRule_iff]
    rintro (⟨-, hmark⟩ | ⟨hdash, -⟩)
    · exact hne (List.cons_prefix_cons.mp hmark).1
    · cases hdash
  · have hsolid : ∀ q ∈ ['%', '{'], isBlank q = false ∧ q ≠ '}' := forall_mem_of_all (by decide)
    obtain ⟨hblank, hclose⟩ := hsolid q (hedges hq)
    exact afterRule_holdsBehind hother hblank hclose fun h =>
      hother.dash (List.cons_prefix_cons.mp h).1
  · refine afterRule_holdsBehind hother rfl (by decide) fun h => ?_
    exact absurd (List.cons_prefix_cons.mp (List.cons_prefix_cons.mp h).2).1 (by decide)

/-- The pass of an opening marker, the dash of which the marker's is not. -/
theorem BlanksBehind.before {edges' : List Char} {other : Char} (hedge : IsEdge edge)
    (hother : IsEdge other) (hclose : other ≠ '}') (hmem : other ∈ edges) (hsub : edges' ⊆ edges)
    (hedges' : ∀ q ∈ edges', isBlank q = false ∧ q ≠ other ∧ other ≠ '{')
    (ht : BlanksBehind edge edges t t') :
    BlanksBehind edge edges' (sift (beforeRule other) [] [] t)
      (sift (beforeRule other) [] [] t') := by
  refine ht.pass (beforeRule_local hother hclose) hedge (fun u hu after => ?_) hsub
    fun q hq => ⟨?_, ?_⟩
  · rw [Bool.eq_false_iff, Ne, beforeRule_iff]
    rintro (⟨-, hmark⟩ | ⟨hdash, -⟩)
    · exact hu other hmem (by simpa using List.reverse_suffix.mpr hmark)
    · cases hdash
  · refine beforeRule_holdsBehind (hedges' q hq).2.1 rfl fun h => ?_
    exact absurd (List.cons_prefix_cons.mp h).1 (by decide)
  · refine beforeRule_holdsBehind (hedges' q hq).2.2.symm (hedges' q hq).1 fun h => ?_
    exact hother.dash (List.cons_prefix_cons.mp (List.cons_prefix_cons.mp h).2).1

theorem BlanksBefore.pass_of_firm {drops : Rule} {words' : List (List Char)} (h : Local drops)
    (hedge : IsEdge edge)
    (hdash : ∀ v, (∀ s ∈ words, ¬ s <+: v) → ∀ before,
      drops (edge :: '{' :: before) '-' v = false)
    (hwords : ∀ s ∈ words', s ∈ words ∧ Firm drops (opener edge).reverse s)
    (ht : BlanksBefore edge words t t') :
    BlanksBefore edge words' (sift drops [] [] t) (sift drops [] [] t') := by
  refine ht.pass h hedge hdash fun v hv s hs hfront => ?_
  obtain ⟨hmem, hfirm⟩ := hwords s hs
  exact hv s hmem (hfirm.prefix_of_prefix_sift h hfront)

theorem BlanksBefore.strip (hedge : IsEdge edge)
    (hwords : ∀ s ∈ words, ∀ c ∈ s, isSpaceOrTab c = false ∧ c ≠ '{')
    (ht : BlanksBefore edge words t t') :
    BlanksBefore edge words (sift stripRule [] [] t) (sift stripRule [] [] t') :=
  ht.pass_of_firm stripRule_local hedge (fun _ _ _ => rfl)
    fun s hs => ⟨hs, stripRule_firm (hwords s hs)⟩

/-- The pass of a closing marker, the dash of which the marker's is not. -/
theorem BlanksBefore.after {words' : List (List Char)} {other : Char} (hedge : IsEdge edge)
    (hother : IsEdge other) (hopen : other ≠ '{') (hmem : [other, '}'] ∈ words)
    (hwords : ∀ s ∈ words', s ∈ words ∧ Firm (afterRule other) (opener edge).reverse s)
    (ht : BlanksBefore edge words t t') :
    BlanksBefore edge words' (sift (afterRule other) [] [] t)
      (sift (afterRule other) [] [] t') := by
  refine ht.pass_of_firm (afterRule_local hother hopen) hedge (fun v hv before => ?_) hwords
  rw [Bool.eq_false_iff, Ne, afterRule_iff]
  rintro (⟨-, hmark⟩ | ⟨hdash, -⟩)
  · exact hv _ hmem hmark
  · cases hdash

/-- The pass of another opening marker. -/
theorem BlanksBefore.before {other : Char} (hedge : IsEdge edge) (hother : IsEdge other)
    (hne : other ≠ edge) (hclose : other ≠ '}')
    (hwords : ∀ s ∈ words, ∀ c ∈ s, isBlank c = false ∧ c ≠ '{')
    (ht : BlanksBefore edge words t t') :
    BlanksBefore edge words (sift (beforeRule other) [] [] t)
      (sift (beforeRule other) [] [] t') := by
  refine ht.pass_of_firm (beforeRule_local hother hclose) hedge (fun v hv before => ?_)
    fun s hs => ⟨hs, beforeRule_firm (hwords s hs) (fun h => ?_) fun h => ?_⟩
  · rw [Bool.eq_false_iff, Ne, beforeRule_iff]
    rintro (⟨-, hmark⟩ | ⟨hdash, -⟩)
    · exact hne (List.cons_prefix_cons.mp hmark).1
    · cases hdash
  · exact hother.dash (List.cons_prefix_cons.mp h).1
  · exact absurd (List.cons_prefix_cons.mp h).1 (by decide)

/-- The pass over the ends of the lines forms a word with two braces out of one with a newline
between them. -/
theorem BlanksBefore.trim {words' : List (List Char)} (hedge : IsEdge edge)
    (hwords : ∀ s ∈ words', s ∈ words ∧ (Firm trimRule (opener edge).reverse s ∨
      ∃ s₀, s = s₀ ++ ['}', '}'] ∧ s₀ ++ ['}', '\n', '}'] ∈ words ∧
        Firm trimRule (opener edge).reverse (s₀ ++ ['}'])))
    (ht : BlanksBefore edge words t t') :
    BlanksBefore edge words' (sift trimRule [] [] t) (sift trimRule [] [] t') := by
  refine ht.pass trimRule_local hedge (fun _ _ _ => rfl) fun v hv s hs hfront => ?_
  obtain ⟨hmem, hfirm | ⟨s₀, rfl, hmem', hfirm⟩⟩ := hwords s hs
  · exact hv s hmem (hfirm.prefix_of_prefix_sift trimRule_local hfront)
  · rcases prefix_of_prefix_trim hfirm hfront with h | h
    · exact hv _ hmem h
    · exact hv _ hmem' h

theorem BlanksBefore.mono {words' : List (List Char)} (hsub : words' ⊆ words)
    (ht : BlanksBefore edge words t t') : BlanksBefore edge words' t t' := by
  obtain ⟨u, w, w', v, ht, ht', hw, hw', hv⟩ := ht
  exact ⟨u, w, w', v, ht, ht', hw, hw', fun s hs => hv s (hsub hs)⟩

end

/-! ### All passes -/

/-- The text once the options are obeyed. -/
def obeyOptions (layout : Layout) (source : List Char) : List Char :=
  let cs := dropLastNewline source
  let cs := if layout.stripLineStarts then sift stripRule [] [] cs else cs
  if layout.trimLineEnds then sift trimRule [] [] cs else cs

theorem normalize_eq_sift (layout : Layout) (source : List Char) :
    normalize layout source = dropGenerationTags 0 (sift (beforeRule '#') [] []
      (sift (afterRule '#') [] [] (sift (beforeRule '{') [] [] (sift (afterRule '}') [] []
        (sift (beforeRule '%') [] [] (sift (afterRule '%') [] []
          (obeyOptions layout source))))))) := by
  simp only [normalize, dropTrimMarkers, dropAfter_zero_eq_sift, dropBefore_zero_eq_sift,
    isEdge_percent, isEdge_hash, isEdge_openBrace, isEdge_closeBrace, stripStarts_true_eq_sift,
    trimEnds_zero_eq_sift, obeyOptions]

section
variable {edge : Char} {edges t t' : List Char} {words words' : List (List Char)}

theorem BlanksBehind.obeyOptions (layout : Layout) (hedge : IsEdge edge)
    (hedges : edges ⊆ ['%', '{']) (ht : BlanksBehind edge edges t t') :
    BlanksBehind edge edges (obeyOptions layout t) (obeyOptions layout t') := by
  have hlast := ht.dropLastNewline
  unfold Layout.obeyOptions
  cases layout.stripLineStarts <;> cases layout.trimLineEnds
  · exact hlast
  · exact hlast.trim hedge hedges
  · exact hlast.strip hedge hedges
  · exact (hlast.strip hedge hedges).trim hedge hedges

theorem BlanksBefore.obeyOptions (layout : Layout) (hedge : IsEdge edge)
    (hwords : ∀ s ∈ words, ∀ c ∈ s, isSpaceOrTab c = false ∧ c ≠ '{') (hsub : words' ⊆ words)
    (htrim : layout.trimLineEnds → ∀ s ∈ words', Firm trimRule (opener edge).reverse s ∨
      ∃ s₀, s = s₀ ++ ['}', '}'] ∧ s₀ ++ ['}', '\n', '}'] ∈ words ∧
        Firm trimRule (opener edge).reverse (s₀ ++ ['}']))
    (ht : BlanksBefore edge words t t') :
    BlanksBefore edge words' (obeyOptions layout t) (obeyOptions layout t') := by
  have hlast := ht.dropLastNewline
  unfold Layout.obeyOptions
  cases layout.stripLineStarts with
  | false =>
    cases htl : layout.trimLineEnds with
    | false => exact hlast.mono hsub
    | true => exact hlast.trim hedge fun s hs => ⟨hsub hs, htrim htl s hs⟩
  | true =>
    have hstrip := hlast.strip hedge hwords
    cases htl : layout.trimLineEnds with
    | false => exact hstrip.mono hsub
    | true => exact hstrip.trim hedge fun s hs => ⟨hsub hs, htrim htl s hs⟩

/-- Behind a closing marker the blanks are irrelevant. -/
theorem normalize_eq_of_blanksBehind (layout : Layout) (hedge : edge ∈ ['%', '}', '#'])
    (ht : BlanksBehind edge ['%', '{'] t t') : normalize layout t = normalize layout t' := by
  have hself : ['%', '{'] ⊆ ['%', '{'] := List.Subset.refl _
  have hbrace : ['{'] ⊆ ['%', '{'] := by decide
  rw [normalize_eq_sift, normalize_eq_sift]
  simp only [List.mem_cons, List.not_mem_nil, or_false] at hedge
  rcases hedge with rfl | rfl | rfl
  · have hown := (ht.obeyOptions layout isEdge_percent hself).own isEdge_percent
      (by decide)
    rw [hown]
  · have hafter := (ht.obeyOptions layout isEdge_closeBrace hself).after
      isEdge_closeBrace isEdge_percent (by decide) (by decide) hself
    have hbefore : BlanksBehind '}' [] _ _ := hafter.before isEdge_closeBrace isEdge_percent
      (by decide) (by decide) (by simp) (by simp)
    rw [hbefore.own isEdge_closeBrace (by decide)]
  · have hafter := (ht.obeyOptions layout isEdge_hash hself).after
      isEdge_hash isEdge_percent (by decide) (by decide) hself
    have hbefore := hafter.before isEdge_hash isEdge_percent (by decide) (by decide) hbrace
      (forall_mem_of_all (by decide))
    have hafter' := hbefore.after isEdge_hash isEdge_closeBrace (by decide) (by decide) hbrace
    have hbefore' : BlanksBehind '#' [] _ _ := hafter'.before isEdge_hash isEdge_openBrace
      (by decide) (by decide) (by simp) (by simp)
    rw [hbefore'.own isEdge_hash (by decide)]

end

/-- What a closing marker that takes the dash of an opening one can begin with behind that dash. -/
def closings : List (List Char) := [['%', '}'], ['}', '}'], ['#', '}']]

/-- What an earlier pass makes a closing marker of behind the dash of an opening one: the newline
between two braces goes where the options ask for it, and the dash of `-}}` goes before it is the
turn of `-#}`. -/
def captures (layout : Layout) : Char → List (List Char)
  | '{' => if layout.trimLineEnds then [['}', '\n', '}']] else []
  | '#' => ['#', '-', '}', '}'] ::
    if layout.trimLineEnds then [['}', '\n', '}'], ['#', '-', '}', '\n', '}']] else []
  | _ => []

section
variable {layout : Layout} {t t' : List Char}

theorem not_mem_of_words {edge : Char} : ∀ s ∈ closings ++ captures layout edge,
    ∀ c ∈ s, isSpaceOrTab c = false ∧ c ≠ '{' := by
  have hclosings : ∀ s ∈ closings, ∀ c ∈ s, isSpaceOrTab c = false ∧ c ≠ '{' :=
    forall_mem_mem_of_all (by decide)
  have hcaptures : ∀ s ∈ captures layout edge, ∀ c ∈ s, isSpaceOrTab c = false ∧ c ≠ '{' := by
    unfold captures
    split
    · cases layout.trimLineEnds <;> exact forall_mem_mem_of_all (by decide)
    · cases layout.trimLineEnds <;> exact forall_mem_mem_of_all (by decide)
    · simp
  exact List.forall_mem_append.mpr ⟨hclosings, hcaptures⟩

theorem trimRule_firm_closing {edge q : Char} (hq : q ≠ '}') :
    Firm trimRule (opener edge).reverse [q, '}'] := by
  have hends : endsTag [q, '-', edge, '{'] = false := by
    rw [Bool.eq_false_iff, Ne, endsTag_iff]
    rintro ⟨e, -, h⟩
    exact hq (List.cons_prefix_cons.mp h).1.symm
  exact ⟨trimRule_holdsBefore rfl, trimRule_holdsBefore hends, trivial⟩

theorem normalize_eq_of_blanksBefore_percent
    (ht : BlanksBefore '%' (closings ++ captures layout '%') t t') :
    normalize layout t = normalize layout t' := by
  have hoptions : BlanksBefore '%' [['%', '}']] _ _ := ht.obeyOptions layout isEdge_percent
    not_mem_of_words (by simp [closings]) fun _ =>
      List.forall_mem_singleton.mpr (.inl (trimRule_firm_closing (by decide)))
  have hafter : BlanksBefore '%' [] _ _ := hoptions.after isEdge_percent isEdge_percent
    (by decide) (by simp) (by simp)
  rw [normalize_eq_sift, normalize_eq_sift, hafter.own isEdge_percent (by decide)]

theorem normalize_eq_of_blanksBefore_openBrace
    (ht : BlanksBefore '{' (closings ++ captures layout '{') t t') :
    normalize layout t = normalize layout t' := by
  have hoptions : BlanksBefore '{' [['%', '}'], ['}', '}']] _ _ := ht.obeyOptions layout
    isEdge_openBrace not_mem_of_words (by simp [closings]) fun htrim => by
      refine List.forall_mem_cons.mpr ⟨.inl (trimRule_firm_closing (by decide)),
        List.forall_mem_singleton.mpr (.inr ⟨[], rfl, by simp [captures, htrim], ?_⟩)⟩
      exact ⟨trimRule_holdsBefore rfl, trivial⟩
  have hafter : BlanksBefore '{' [['}', '}']] _ _ := hoptions.after isEdge_openBrace
    isEdge_percent (by decide) (by simp) (List.forall_mem_singleton.mpr
      ⟨by simp, afterRule_firm isEdge_percent (by decide) (by decide)⟩)
  have hbefore := hafter.before isEdge_openBrace isEdge_percent (by decide) (by decide)
    (forall_mem_mem_of_all (by decide))
  have hafter' : BlanksBefore '{' [] _ _ := hbefore.after isEdge_openBrace isEdge_closeBrace
    (by decide) (by simp) (by simp)
  rw [normalize_eq_sift, normalize_eq_sift, hafter'.own isEdge_openBrace (by decide)]

theorem normalize_eq_of_blanksBefore_hash
    (ht : BlanksBefore '#' (closings ++ captures layout '#') t t') :
    normalize layout t = normalize layout t' := by
  have hoptions : BlanksBefore '#' (closings ++ [['#', '-', '}', '}']]) _ _ :=
    ht.obeyOptions layout isEdge_hash not_mem_of_words (by simp [closings, captures])
    fun htrim => by
      simp only [closings, List.cons_append, List.nil_append, List.forall_mem_cons]
      refine ⟨.inl (trimRule_firm_closing (by decide)), .inr ⟨[], rfl, ?_, ?_⟩,
        .inl (trimRule_firm_closing (by decide)), .inr ⟨['#', '-'], rfl, ?_, ?_⟩, by simp⟩
      · simp [captures, htrim]
      · exact ⟨trimRule_holdsBefore rfl, trivial⟩
      · simp [captures, htrim]
      · exact ⟨trimRule_holdsBefore rfl, trimRule_holdsBefore rfl, trimRule_holdsBefore rfl,
          trivial⟩
  have hafter : BlanksBefore '#' [['}', '}'], ['#', '}'], ['#', '-', '}', '}']] _ _ :=
    hoptions.after isEdge_hash isEdge_percent (by decide) (by simp [closings]) fun s hs => by
      have hpercent : ∀ s ∈ [['}', '}'], ['#', '}'], ['#', '-', '}', '}']], '%' ∉ s := by decide
      exact ⟨List.mem_cons_of_mem _ hs, afterRule_firm isEdge_percent (hpercent s hs) (by decide)⟩
  have hbefore := hafter.before isEdge_hash isEdge_percent (by decide) (by decide)
    (forall_mem_mem_of_all (by decide))
  have hafter' : BlanksBefore '#' [['#', '}']] _ _ :=
    hbefore.pass (afterRule_local isEdge_closeBrace (by decide)) isEdge_hash
      (fun v hv before => by
        rw [Bool.eq_false_iff, Ne, afterRule_iff]
        rintro (⟨-, hmark⟩ | ⟨hdash, -⟩)
        · exact hv _ (by simp) hmark
        · cases hdash)
      (fun v hv => List.forall_mem_singleton.mpr fun hfront => by
        rcases prefix_of_prefix_afterBrace rfl (by decide) (by decide) hfront with h | h
        · exact hv _ (by simp) h
        · exact hv _ (by simp) h)
  have hbefore' := hafter'.before isEdge_hash isEdge_openBrace (by decide) (by decide)
    (forall_mem_mem_of_all (by decide))
  have hafter'' : BlanksBefore '#' [] _ _ := hbefore'.after isEdge_hash isEdge_hash (by decide)
    (by simp) (by simp)
  rw [normalize_eq_sift, normalize_eq_sift, hafter''.own isEdge_hash (by decide)]

end

/-- **The dash of a marker makes the blanks beside it irrelevant**, behind a closing marker and
before an opening one, unless the dash is at the same time the dash of another marker, or becomes it
before the marker's turn. -/
theorem normalize_blanks_beside_dash (layout : Layout) (u v w : List Char)
    (hw : ∀ c ∈ w, isBlank c) :
    (∀ edge ∈ ['%', '}', '#'], (∀ q ∈ ['%', '{', '#'], ¬ ['{', q] <:+ u) →
      normalize layout (u ++ closer edge ++ w ++ v) = normalize layout (u ++ closer edge ++ v)) ∧
    (∀ edge ∈ ['%', '{', '#'], (∀ s ∈ closings ++ captures layout edge, ¬ s <+: v) →
      normalize layout (u ++ w ++ opener edge ++ v) =
        normalize layout (u ++ opener edge ++ v)) := by
  constructor
  · intro edge hedge hu
    refine normalize_eq_of_blanksBehind layout hedge ⟨u, w, [], v, by simp, by simp, hw, by simp,
      fun q hq => ?_⟩
    exact hu q (List.mem_append_left ['#'] hq)
  · intro edge hedge hv
    have ht : BlanksBefore edge (closings ++ captures layout edge) (u ++ w ++ opener edge ++ v)
        (u ++ opener edge ++ v) := ⟨u, w, [], v, by simp, by simp, hw, by simp, hv⟩
    simp only [List.mem_cons, List.not_mem_nil, or_false] at hedge
    rcases hedge with rfl | rfl | rfl
    · exact normalize_eq_of_blanksBefore_percent ht
    · exact normalize_eq_of_blanksBefore_openBrace ht
    · exact normalize_eq_of_blanksBefore_hash ht

theorem normalize_newline_beside_dash :
    normalize ⟨true, true⟩ ("a".toList ++ closer '%' ++ [' ', '\n'] ++ "b".toList) =
        normalize ⟨true, true⟩ ("a".toList ++ closer '%' ++ "b".toList) ∧
      normalize ⟨true, true⟩ ("a".toList ++ [' ', '\n'] ++ opener '#' ++ "b".toList) =
        normalize ⟨true, true⟩ ("a".toList ++ opener '#' ++ "b".toList) := by
  have h := normalize_blanks_beside_dash ⟨true, true⟩ "a".toList "b".toList [' ', '\n']
    (forall_mem_of_all (by decide))
  exact ⟨h.1 '%' (by decide) (forall_mem_of_all (by decide)), h.2 '#' (by decide) (by decide)⟩

/-- Without the proviso for the markers that an earlier pass forms, the blank before a marker may
stay: the dash of the first text goes to `-#}`, that of the second one to `-}}`. -/
theorem normalize_blank_beside_captured_dash :
    (∀ s ∈ closings, ¬ s <+: ['#', '-', '}', '}'] ∧ ¬ s <+: ['}', '\n', '}']) ∧
      normalize ⟨false, false⟩ (['a'] ++ [' '] ++ opener '#' ++ ['#', '-', '}', '}']) ≠
        normalize ⟨false, false⟩ (['a'] ++ opener '#' ++ ['#', '-', '}', '}']) ∧
      normalize ⟨false, true⟩ (['a'] ++ [' '] ++ opener '{' ++ ['}', '\n', '}']) ≠
        normalize ⟨false, true⟩ (['a'] ++ opener '{' ++ ['}', '\n', '}']) := by
  decide

end ChatTemplate.Layout
