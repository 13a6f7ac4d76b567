import ChatTemplate.Proofs.Lexeme.Contents

/-!
# What the options of a layout can change for the tokens

The options take blanks within a line start before a tag, and newlines behind `%}`, `#}` and `-}`
(`Breaks`). For the tokens outside of literal text such a blank is of no account, but for the values
of string literals of several lines (`Worn`), unless the text plays with the forms of the tags:
`-}` or `{%}` right before a newline, or a tag around a generated passage that holds a newline apart
from what the newline is then joined to (`TagsApart`).
-/

namespace ChatTemplate.Layout
open Text Lexeme

/-! ### The blanks that the options take -/

/-- What stands before a blank that the options take from a text without `-}` before a newline. -/
structure Breaks (u : List Char) (b : Char) : Prop where
  gap : Gap u
  brace : ['}'] <:+ u → ['%', '}'] <:+ u ∨ ['#', '}'] <:+ u
  line : NewLine u b

section
variable {drops : Rule} {b c x : Char} {u v g l : List Char}

theorem newLine_of_atLineStart (h : atLineStart u.reverse) : NewLine u b := by
  have hsplit : u = (u.reverse.dropWhile isSpaceOrTab).reverse ++
      (u.reverse.takeWhile isSpaceOrTab).reverse := by
    rw [← List.reverse_append, List.takeWhile_append_dropWhile, List.reverse_reverse]
  have hblank : ∀ c ∈ (u.reverse.takeWhile isSpaceOrTab).reverse, isBlank c := fun c hc =>
    isBlank_of_isSpaceOrTab (List.mem_takeWhile_imp (List.mem_reverse.mp hc))
  rw [atLineStart] at h
  cases hrest : u.reverse.dropWhile isSpaceOrTab with
  | nil =>
    rw [hrest, List.reverse_nil, List.nil_append] at hsplit
    exact .inr (.inl fun c hc => hblank c (hsplit ▸ hc))
  | cons c rest =>
    rw [hrest] at h hsplit
    obtain rfl : c = '\n' := by simpa using h
    refine .inr (.inr ⟨rest.reverse, '\n' :: (u.reverse.takeWhile isSpaceOrTab).reverse, ?_, ?_, ?_⟩)
    · simpa using hsplit
    · exact List.forall_mem_cons.mpr ⟨rfl, hblank⟩
    · exact List.mem_cons_self

/-- A text that ends with no blank is left by a newline only. -/
theorem NewLine.eq_newline (h : NewLine (l ++ [x]) b) (hx : isBlank x = false) : b = '\n' := by
  rcases h with hb | hall | ⟨l', g, hsplit, hg, hline⟩
  · exact hb
  · rw [hall x (by simp)] at hx
    cases hx
  · obtain ⟨g, y, rfl⟩ := (List.eq_nil_or_concat' g).resolve_left (List.ne_nil_of_mem hline)
    rw [← List.append_assoc] at hsplit
    obtain rfl := List.singleton_inj.mp (List.append_inj' hsplit rfl).2
    rw [hg x (by simp)] at hx
    cases hx

theorem sift_eq_self {before after : List Char} (h : ∀ l c r, u = l ++ c :: r →
    drops (l.reverse ++ before) c (r ++ after) = false) : sift drops before after u = u := by
  induction u generalizing before with
  | nil => rfl
  | cons c u ih =>
    have hhere : drops before c (u ++ after) = false := h [] c u rfl
    rw [sift_cons_of_keeps hhere, ih fun l d r hu => ?_]
    simpa using h (c :: l) d r (by rw [hu]; rfl)

/-- A pass that keeps a blank keeps the blanks before it. -/
theorem Indifferent.sift_run (h : Indifferent drops b (l ++ g) v)
    (hkeep : drops (l ++ g).reverse b v = false) (hg : ∀ c ∈ g, isBlank c) :
    sift drops [] v (l ++ g) = sift drops [] (g ++ v) l ++ g := by
  have hself : sift drops (l.reverse ++ []) v g = g := sift_eq_self fun l' c r hsplit => by
    rw [hsplit] at hg
    have hrun := h.run (l ++ l') c r (by rw [hsplit, List.append_assoc]) (hg c (by simp))
      fun d hd => hg d (by simp [hd])
    rw [List.append_nil, ← List.reverse_append, hrun, hkeep]
  rw [sift_append, hself]

theorem NewLine.sift (h : NewLine u b) (hindiff : Indifferent drops b u v)
    (hkeep : drops u.reverse b v = false) : NewLine (sift drops [] v u) b := by
  rcases h with hb | hall | ⟨l, g, rfl, hg, hline⟩
  · exact .inl hb
  · exact .inr (.inl fun c hc => hall c ((sift_sublist ..).subset hc))
  · exact .inr (.inr ⟨_, g, hindiff.sift_run hkeep hg, hg, hline⟩)

theorem breaks_lasting : Lasting Breaks := by
  intro drops b u v hlocal hindiff hkeep h
  refine ⟨hindiff.gap hlocal hkeep h.gap, fun hbrace => ?_, NewLine.sift h.line hindiff hkeep⟩
  rcases List.eq_nil_or_concat' u with rfl | ⟨l, x, rfl⟩
  · simp [Layout.sift] at hbrace
  have hsift := hindiff.sift_concat hlocal h.gap hkeep rfl
  rw [hsift] at hbrace ⊢
  obtain rfl := eq_of_suffix_concat hbrace
  have hedge : ∀ {q}, IsEdge q → [q, '}'] <:+ l ++ ['}'] →
      [q, '}'] <:+ Layout.sift drops [] ('}' :: v) l ++ ['}'] := by
    intro q hq hend
    obtain ⟨⟨l, rfl⟩, -⟩ := concat_suffix_concat_iff.mp (show [q] ++ ['}'] <:+ _ from hend)
    have hkept : [q] <:+ Layout.sift drops [] ('}' :: v) (l ++ [q]) := by
      rw [sift_append, sift_cons_of_keeps (hlocal.keeps_edge hq ..)]
      exact List.suffix_append _ _
    exact show [q] ++ ['}'] <:+ _ from concat_suffix_concat_iff.mpr ⟨hkept, rfl⟩
  exact (h.brace (List.suffix_append l ['}'])).imp (hedge isEdge_percent) (hedge isEdge_hash)

/-- Where no `-}` stands before a newline, the options take nothing else. -/
theorem shedsAll_breaks (layout : Layout) {source : List Char}
    (hsource : ¬ ['-', '}', '\n'] <:+: source) :
    ShedsAll (fun u b v => Breaks u b ∧ ¬ SplitsCloser u v) (dropLastNewline source)
      (obeyOptions layout source) := by
  have hlast : ¬ ['-', '}', '\n'] <:+: dropLastNewline source := fun h =>
    hsource (h.trans (dropLastNewline_front source).isInfix)
  refine shedsAll_obeyOptions layout (fun u b v _ hline => ?_) fun u r hend hsplit => ?_
  · have hblank := isBlank_of_atLineStart hline
    have hbrace : ¬ ['}'] <:+ u := fun h => by cases hblank '}' h
    refine ⟨⟨fun x hx => .inl (hblank x hx), fun h => absurd h hbrace, newLine_of_atLineStart hline⟩,
      fun h => hbrace ((List.suffix_cons '-' ['}']).trans h.1)⟩
  · obtain ⟨l, e, he, rfl⟩ := exists_edge_of_endsTag hend
    have hdash : e ≠ '-' := by
      rintro rfl
      have hinfix : ['-', '}', '\n'] <:+: l ++ ['-', '}'] ++ '\n' :: r := ⟨l, r, by simp⟩
      rcases hsplit with hsplit | hsplit
      · exact hlast (hsplit ▸ hinfix)
      · exact hlast (infix_of_infix_strip (forall_mem_of_all (by decide)) (hsplit ▸ hinfix))
    have hedge : e = '%' ∨ e = '#' := by
      rw [isTagEdge, Bool.or_eq_true, Bool.or_eq_true, beq_iff_eq, beq_iff_eq, beq_iff_eq] at he
      tauto
    have hlastBrace : ∀ x, [x] <:+ l ++ [e, '}'] → x = '}' := fun x hx =>
      eq_of_suffix_concat (u := l ++ [e]) (by simpa using hx)
    refine ⟨⟨fun x hx => .inr (hlastBrace x hx), fun _ => ?_, .inl rfl⟩, ?_⟩
    · rcases hedge with rfl | rfl
      · exact .inl (List.suffix_append l _)
      · exact .inr (List.suffix_append l _)
    · rintro ⟨hend', -⟩
      rw [List.append_cons] at hend'
      exact hdash (eq_of_suffix_concat (concat_suffix_concat_iff.mp
        (show ['-'] ++ ['}'] <:+ _ from hend')).1).symm

end

/-! ### A blank before or behind a tag around a generated passage -/

section
variable {s t r r' u v l l' g rest : List Char} {b c x : Char}

theorem Remains.eq_nil (h : Remains s [] r') : r' = [] := by
  generalize hr : ([] : List Char) = r at h
  cases h with
  | nil => rfl
  | keep c _ => cases hr
  | skip _ _ => simp at hr

/-- Where nothing remains, tags stand one after the other. -/
theorem Remains.tags (h : Remains s r r') (hr' : r' = []) (hne : r ≠ []) :
    (afterGenerationTag? (r ++ s)).isSome ∧
      dropGenerationTags 0 (r ++ s) = dropGenerationTags 0 s ∧ ['}'] <:+ r := by
  induction h with
  | nil => exact absurd rfl hne
  | keep c _ => cases hr'
  | @skip tag r r' htag h ih =>
    have hdrop := dropGenerationTags_of_tag htag
    simp only [List.append_assoc, List.cons_append]
    refine ⟨by rw [htag]; rfl, ?_, ?_⟩
    · rw [hdrop]
      rcases eq_or_ne r [] with rfl | hr
      · rfl
      · exact (ih hr' hr).2.1
    · rcases eq_or_ne r [] with rfl | hr
      · exact List.suffix_append tag ['}']
      · exact (ih hr' hr).2.2.trans (by simp [List.suffix_append_of_suffix])

/-- The last character that remains, and the tags behind it. -/
theorem Remains.concat (h : Remains s r (l' ++ [x])) :
    ∃ l t, r = l ++ x :: t ∧ Remains (x :: t ++ s) l l' ∧ Remains s t [] := by
  generalize hr' : l' ++ [x] = r' at h
  induction h generalizing l' with
  | nil => simp at hr'
  | @keep r r' c h ih =>
    cases l' with
    | nil =>
      obtain ⟨rfl, rfl⟩ := List.cons.inj hr'
      exact ⟨[], r, rfl, .nil, h⟩
    | cons d l' =>
      obtain ⟨rfl, hrest⟩ := List.cons.inj hr'
      obtain ⟨l, t, rfl, hl, ht⟩ := ih hrest
      exact ⟨d :: l, t, rfl, hl.keep d, ht⟩
  | @skip tag r r' htag h ih =>
    obtain ⟨l, t, rfl, hl, ht⟩ := ih hr'
    refine ⟨tag ++ '}' :: l, t, by simp, hl.skip ?_, ht⟩
    simpa using htag

/-- Only a closing brace can go from the end of a text. -/
theorem Remains.keep_last (h : Remains s (l ++ [x]) r') (hx : x ≠ '}') :
    ∃ l', r' = l' ++ [x] ∧ Remains (x :: s) l l' := by
  have hnil : ∀ {t}, Remains s t [] → [x] <:+ t → False := fun {t} ht hsuffix => by
    have hne : t ≠ [] := by
      rintro rfl
      simp at hsuffix
    obtain ⟨m, rfl⟩ := (ht.tags rfl hne).2.2
    exact hx (eq_of_suffix_concat hsuffix)
  rcases List.eq_nil_or_concat' r' with rfl | ⟨l', y, rfl⟩
  · exact absurd (List.suffix_append l [x]) (hnil h)
  · obtain ⟨m, t, hsplit, hm, ht⟩ := h.concat
    rcases List.eq_nil_or_concat' t with rfl | ⟨t, z, rfl⟩
    · obtain ⟨rfl, heq⟩ := List.append_inj' hsplit rfl
      obtain rfl := List.singleton_inj.mp heq
      exact ⟨l', rfl, hm⟩
    · have hlast : [x] <:+ m ++ y :: (t ++ [z]) := ⟨l, hsplit⟩
      rw [← List.cons_append, ← List.append_assoc] at hlast
      obtain rfl := eq_of_suffix_concat hlast
      exact (hnil ht (List.suffix_append t [x])).elim

/-- The blanks at the end of a text remain. -/
theorem Remains.keep_blanks (h : Remains s (l ++ g) r') (hg : ∀ c ∈ g, isBlank c) :
    ∃ l', r' = l' ++ g ∧ Remains (g ++ s) l l' := by
  induction g using List.reverseRecOn generalizing s r' with
  | nil => exact ⟨r', by simp, by simpa using h⟩
  | append_singleton g c ih =>
    have hc : isBlank c := hg c (by simp)
    have hne : c ≠ '}' := by
      rintro rfl
      cases hc
    rw [← List.append_assoc] at h
    obtain ⟨m, rfl, hm⟩ := h.keep_last hne
    obtain ⟨l', rfl, hl⟩ := ih hm fun d hd => hg d (by simp [hd])
    exact ⟨l', by simp, by simpa using hl⟩

/-- Between a tag around a generated passage and the character before it nothing comes together that
was not one: where a newline stands behind the tag, a blank stands before it, or a closing brace that
either ends a tag or is joined with nothing. -/
def TagsApart (t : List Char) : Prop :=
  ∀ u x r, t = u ++ x :: r → (afterGenerationTag? r).isSome → ['\n'] <+: dropGenerationTags 0 r →
    isBlank x ∨ x = '}' ∧
      (Joins (dropBlanks (dropGenerationTags 0 r)) → ['%'] <:+ u ∨ ['#'] <:+ u)

/-- The condition holds at every place of the text. -/
theorem tagsApart_iff : TagsApart t ↔ ∀ i (hi : i < t.length),
    (afterGenerationTag? (t.drop (i + 1))).isSome →
    ['\n'] <+: dropGenerationTags 0 (t.drop (i + 1)) →
    isBlank t[i] ∨ t[i] = '}' ∧ (Joins (dropBlanks (dropGenerationTags 0 (t.drop (i + 1)))) →
      ['%'] <:+ t.take i ∨ ['#'] <:+ t.take i) := by
  constructor
  · intro h i hi
    refine h (t.take i) t[i] (t.drop (i + 1)) ?_
    rw [List.getElem_cons_drop, List.take_append_drop]
  · rintro h u x r rfl
    have hdrop : (u ++ x :: r).drop (u.length + 1) = r := by
      rw [List.append_cons, List.drop_left' (by simp)]
    simpa [hdrop] using h u.length (by simp)

instance (v : List Char) : Decidable (Joins v) := inferInstanceAs (Decidable (_ ∨ _))

instance (t : List Char) : Decidable (TagsApart t) := decidable_of_iff _ tagsApart_iff.symm

theorem dropGenerationTags_of_blank (hb : isBlank b) (v : List Char) :
    dropGenerationTags 0 (b :: v) = b :: dropGenerationTags 0 v :=
  dropGenerationTags_of_none (afterGenerationTag?_of_blank hb v)

/-- What stands before a break, with or without tags in between. -/
theorem Breaks.before_tags (h : Breaks (l ++ x :: t) b) (hb : isBlank b)
    (htags : TagsApart (l ++ x :: t ++ b :: v)) (ht : Remains (b :: v) t []) :
    isBlank x ∨ x = '}' ∧
      (Joins (dropBlanks (dropGenerationTags 0 v)) → ['%'] <:+ l ∨ ['#'] <:+ l) := by
  rcases eq_or_ne t [] with rfl | hne
  · refine (h.gap x (List.suffix_append l [x])).imp_right fun hx => ⟨hx, fun _ => ?_⟩
    have hend := h.brace (hx ▸ List.suffix_append l [x])
    exact hend.imp (fun hend => (concat_suffix_concat_iff.mp (show ['%'] ++ ['}'] <:+ _ from hend)).1)
      fun hend => (concat_suffix_concat_iff.mp (show ['#'] ++ ['}'] <:+ _ from hend)).1
  · obtain ⟨htag, hdrop, hlast⟩ := ht.tags rfl hne
    rw [dropGenerationTags_of_blank hb] at hdrop
    obtain ⟨m, rfl⟩ := hlast
    have hline : NewLine ((l ++ x :: m) ++ ['}']) b := by simpa using h.line
    obtain rfl := NewLine.eq_newline hline rfl
    have hapart := htags l x (m ++ ['}'] ++ '\n' :: v) (by simp) htag
      (hdrop ▸ List.prefix_append ['\n'] _)
    rwa [hdrop, dropBlanks_cons_of_blank hb] at hapart

theorem Breaks.gap_remains (h : Breaks u b) (hb : isBlank b) (htags : TagsApart (u ++ b :: v))
    (hr : r <:+ u) (hremains : Remains (b :: v) r r') : Gap r' := by
  rintro x ⟨l', rfl⟩
  obtain ⟨l, t, rfl, -, ht⟩ := hremains.concat
  obtain ⟨front, rfl⟩ := hr
  rw [← List.append_assoc] at h htags
  exact (h.before_tags hb htags ht).imp_right And.left

theorem joins_dropBlanks (h : Joins v) : Joins (dropBlanks v) := by
  have hfront : dropBlanks v = v := by
    rcases h with ⟨v, rfl⟩ | ⟨v, rfl⟩
    · exact dropBlanks_cons_of_not_blank rfl v
    · exact dropBlanks_cons_of_not_blank rfl ('#' :: v)
  rwa [hfront]

/-- A break is of no account once the tags around generated passages are gone. -/
theorem Breaks.idle (h : Breaks u b) (hb : isBlank b) (htags : TagsApart (u ++ b :: v))
    (hremains : Remains (b :: v) u r')
    (hopen : ¬ ['{', '%', '}', '\n'] <:+: r' ++ b :: dropGenerationTags 0 v) :
    Idle r' b (dropGenerationTags 0 v) := by
  have hgap := h.gap_remains hb htags (List.suffix_refl u) hremains
  have hline : NewLine r' b := by
    rcases h.line with hb | hall | ⟨l, g, rfl, hg, hnewline⟩
    · exact .inl hb
    · obtain ⟨l', rfl, hl⟩ := Remains.keep_blanks (l := []) hremains hall
      obtain rfl := hl.eq_nil
      exact .inr (.inl hall)
    · obtain ⟨l', rfl, -⟩ := hremains.keep_blanks hg
      exact .inr (.inr ⟨l', g, rfl, hg, hnewline⟩)
  refine ⟨hb, hgap, ?_, hline⟩
  rintro ⟨l', rfl⟩ hjoins
  obtain rfl := NewLine.eq_newline hline rfl
  obtain ⟨l, t, rfl, hl, ht⟩ := hremains.concat
  have hend := ((h.before_tags hb htags ht).resolve_left (by decide)).2 (joins_dropBlanks hjoins)
  rcases hend with ⟨m, rfl⟩ | ⟨m, rfl⟩
  · obtain ⟨m', rfl, -⟩ := hl.keep_last (by decide)
    refine .inr ⟨⟨m', by simp⟩, fun hfront => hopen ?_⟩
    obtain ⟨m, hm⟩ := hfront
    exact ⟨m, dropGenerationTags 0 v, by rw [← hm]; simp⟩
  · obtain ⟨m', rfl, -⟩ := hl.keep_last (by decide)
    exact .inl ⟨m', by simp⟩

theorem suffix_of_suffix_insert (h : [c] <:+ u ++ b :: v) (hne : c ≠ b) : [c] <:+ u ++ v := by
  rcases List.eq_nil_or_concat' v with rfl | ⟨v, d, rfl⟩
  · exact absurd (eq_of_suffix_concat h) hne
  · rw [← List.cons_append, ← List.append_assoc] at h
    rw [eq_of_suffix_concat h, ← List.append_assoc]
    exact List.suffix_append _ _

theorem TagsApart.shed (htags : TagsApart (u ++ b :: v)) (h : Breaks u b) (hb : isBlank b) :
    TagsApart (u ++ v) := by
  have hne : ∀ {q : Char}, isBlank q = false → q ≠ b := fun {q} hq => by
    rintro rfl
    rw [hq] at hb
    cases hb
  intro u₁ x r hsplit htag hline
  have hcases : (∃ v₁, u₁ = u ++ v₁ ∧ v = v₁ ++ x :: r) ∨ ∃ u₂, u = u₁ ++ x :: u₂ ∧ r = u₂ ++ v := by
    rcases List.append_eq_append_iff.mp hsplit with ⟨v₁, hu, hv⟩ | ⟨w, hu, hv⟩
    · exact .inl ⟨v₁, hu, hv⟩
    · cases w with
      | nil => exact .inl ⟨[], by simpa using hu.symm, hv.symm⟩
      | cons y u₂ =>
        obtain ⟨rfl, rfl⟩ := List.cons.inj hv
        exact .inr ⟨u₂, hu, rfl⟩
  rcases hcases with ⟨v₁, rfl, rfl⟩ | ⟨u₂, rfl, rfl⟩
  · have hapart := htags (u ++ b :: v₁) x r (by simp) htag hline
    exact hapart.imp_right (And.imp_right fun hend hjoins => (hend hjoins).imp
      (fun hend => suffix_of_suffix_insert hend (hne rfl))
      fun hend => suffix_of_suffix_insert hend (hne rfl))
  · have hsuffix : u₂ <:+ u₁ ++ x :: u₂ := ⟨u₁ ++ [x], by simp⟩
    have hu₂ : Gap u₂ := h.gap.of_suffix hsuffix
    rcases eq_or_ne u₂ [] with rfl | hu₂ne
    · exact h.before_tags hb htags .nil
    have htag' : (afterGenerationTag? (u₂ ++ b :: v)).isSome := by
      rcases hu₂.afterGenerationTag?_insert (v := v) hb hu₂ne with
        ⟨-, hnone⟩ | ⟨_, _, -, hsome, -⟩ | ⟨_, hsome, -⟩
      · rw [hnone] at htag
        cases htag
      · rw [hsome]
        rfl
      · rw [hsome]
        rfl
    have hapart := htags u₁ x (u₂ ++ b :: v) (by simp) htag'
    rcases dropGenerationTags_insert (v := v) hb hu₂ with heq | ⟨r', hremains, heq, heq'⟩
    · rw [heq] at hapart
      exact hapart hline
    · rw [heq'] at hline ⊢
      rw [heq] at hapart
      cases r' with
      | nil => exact h.before_tags hb htags hremains
      | cons y r' =>
        have hgap := h.gap_remains hb htags hsuffix hremains
        have hmark : ∀ {word : List Char}, (∀ c ∈ word, isBlank c = false) → '}' ∉ word.dropLast →
            word <+: dropBlanks (y :: r' ++ dropGenerationTags 0 v) →
            word <+: dropBlanks (y :: r' ++ b :: dropGenerationTags 0 v) :=
          fun hword hclose =>
            (prefix_dropBlanks_insert_iff hword hb (hgap.not_straddles hword hclose)).mpr
        refine (hapart ?_).imp_right (And.imp_right fun hend hjoins => hend (hjoins.imp ?_ ?_))
        · simpa using hline
        · exact hmark (forall_mem_of_all (by decide)) (by decide)
        · exact hmark (forall_mem_of_all (by decide)) (by decide)

/-- Where a blank of no account goes, no `{%}` comes before a newline. -/
theorem not_infix_shed (h : Idle u b v) (hopen : ¬ ['{', '%', '}', '\n'] <:+: u ++ b :: v) :
    ¬ ['{', '%', '}', '\n'] <:+: u ++ v := by
  intro hinfix
  have hu : ¬ ['{', '%', '}', '\n'] <:+: u := fun h =>
    hopen (h.trans (List.prefix_append u _).isInfix)
  have hv : ¬ ['{', '%', '}', '\n'] <:+: v := fun h =>
    hopen (h.trans (List.suffix_append (u ++ [b]) v).isInfix |>.trans (by simp))
  rcases List.infix_append_iff.mp hinfix with hin | hin | ⟨w₁, w₂, hword, hw₁, hw₂⟩
  · exact hu hin
  · exact hv hin
  match w₁ with
  | [] => exact hv (hword ▸ hw₂.isInfix)
  | [c] =>
    obtain ⟨rfl, -⟩ := List.cons.inj hword
    rcases h.gap '{' hw₁ with hc | hc <;> cases hc
  | [c, d] =>
    obtain ⟨-, hrest⟩ := List.cons.inj hword
    obtain ⟨rfl, -⟩ := List.cons.inj hrest
    rcases h.gap '%' ((List.suffix_cons c ['%']).trans hw₁) with hc | hc <;> cases hc
  | [c, d, e] =>
    simp only [List.cons_append, List.nil_append, List.cons.injEq] at hword
    obtain ⟨rfl, rfl, rfl, -⟩ := hword
    obtain ⟨m, rfl⟩ := hw₁
    obtain rfl : b = '\n' := NewLine.eq_newline (l := m ++ ['{', '%']) (by simpa using h.line) rfl
    exact hopen ⟨m, v, by simp⟩
  | [c, d, e, f] =>
    have hsuffix : ['{', '%', '}', '\n'] <:+ u := by
      simp only [List.cons_append, List.nil_append, List.cons.injEq] at hword
      obtain ⟨rfl, rfl, rfl, rfl, -⟩ := hword
      exact hw₁
    exact hu hsuffix.isInfix
  | c :: d :: e :: f :: g :: w =>
    simp at hword

end

/-! ### The contents of two layouts -/

section
variable {t t' u v source : List Char} {b : Char} {layout layout' : Layout} {ts ts' : List Token}

/-- The conditions on a text that make its breaks of no account. -/
structure Tidy (t : List Char) : Prop where
  tags : TagsApart t
  opener : ¬ ['{', '%', '}', '\n'] <:+: dropGenerationTags 0 t

theorem Tidy.shed (h : Tidy (u ++ b :: v)) (hbreaks : Breaks u b) (hb : isBlank b) :
    Tidy (u ++ v) ∧ List.Forall₂ Worn (contents none 0 (dropGenerationTags 0 (u ++ b :: v)))
      (contents none 0 (dropGenerationTags 0 (u ++ v))) := by
  have htags : TagsApart (u ++ v) := h.tags.shed hbreaks hb
  have hopen := h.opener
  rcases dropGenerationTags_insert (v := v) hb hbreaks.gap with heq | ⟨u', hremains, heq, heq'⟩
  · rw [heq] at hopen ⊢
    exact ⟨⟨htags, hopen⟩, List.forall₂_same.mpr fun a _ => Worn.refl a⟩
  · rw [heq] at hopen ⊢
    have hidle := hbreaks.idle hb h.tags hremains hopen
    refine ⟨⟨htags, heq' ▸ not_infix_shed hidle hopen⟩, ?_⟩
    rw [heq']
    exact contents_insert hidle fun _ hlast => by cases hlast

theorem forall₂_join {α β γ : Type} {P : α → β → Prop} {Q : α → γ → Prop} {R : β → γ → Prop}
    (h : ∀ a b c, P a b → Q a c → R b c) {as : List α} {bs : List β} {cs : List γ}
    (hb : List.Forall₂ P as bs) (hc : List.Forall₂ Q as cs) : List.Forall₂ R bs cs := by
  induction hb generalizing cs with
  | nil =>
    cases hc
    exact .nil
  | cons hab _ ih =>
    cases hc with
    | cons hac hrest => exact .cons (h _ _ _ hab hac) (ih hrest)

theorem Tidy.worn (h : Tidy t) (ht : ShedsAll (fun u b _ => Breaks u b) t t') :
    Tidy t' ∧ List.Forall₂ Worn (contents none 0 (dropGenerationTags 0 t))
      (contents none 0 (dropGenerationTags 0 t')) := by
  induction ht with
  | refl => exact ⟨h, List.forall₂_same.mpr fun a _ => Worn.refl a⟩
  | tail _ hstep ih =>
    obtain ⟨u, b, v, rfl, rfl, hb, hbreaks⟩ := hstep
    obtain ⟨htidy, hworn⟩ := ih.1.shed hbreaks hb
    have hbefore : List.Forall₂ (flip Worn) _ _ := List.Forall₂.flip ih.2
    have htrans : ∀ a b c, flip Worn a b → Worn a c → Worn b c := fun _ _ _ => Worn.trans
    exact ⟨htidy, forall₂_join htrans hbefore hworn⟩

/-- The classes and values of the tokens outside of literal text and comments. -/
def constructs (ts : List Token) : List (TokenKind × List Char) :=
  (ts.filter fun t => t.kind ≠ .text ∧ t.kind ≠ .comment).map fun t => (t.kind, t.value.toList)

theorem constructs_tokensFrom {last : Option TokenKind} {depth : Int} {pos : Pos} {n : Nat}
    {cs : List Char} (hn : cs.length ≤ n) (h : tokensFrom last depth pos n cs = .ok ts) :
    constructs ts = contents last depth cs ++ [(.eof, [])] := by
  induction n generalizing last depth pos cs ts with
  | zero =>
    obtain rfl := List.length_eq_zero_iff.mp (Nat.le_zero.mp hn)
    cases h
    rfl
  | succ n ih =>
    rcases eq_or_ne cs [] with rfl | hcs
    · cases h
      rfl
    cases hscan : scan last depth cs with
    | error e =>
      rw [tokensFrom.eq_3 _ _ _ _ _ hcs, hscan] at h
      cases h
    | ok x =>
      rw [tokensFrom_of_scan hscan] at h
      obtain ⟨rest, hrest, rfl⟩ : ∃ rest, tokensFrom (some x.kind) (x.kind.depthAfter depth)
          (pos.after (x.gap ++ x.text)) n x.rest = .ok rest ∧ x.token pos :: rest = ts := by
        cases hrest : tokensFrom (some x.kind) (x.kind.depthAfter depth)
            (pos.after (x.gap ++ x.text)) n x.rest with
        | error e =>
          rw [hrest] at h
          cases h
        | ok rest =>
          rw [hrest] at h
          exact ⟨rest, rfl, Except.ok.inj h⟩
      have hlt := (scan_sound hscan).length_rest_lt
      have hcons : constructs (x.token pos :: rest) = x.content ++ constructs rest := by
        by_cases hkind : x.kind = .text ∨ x.kind = .comment
        · rcases hkind with hkind | hkind <;> simp [constructs, Lexeme.token, content, hkind]
        · obtain ⟨htext, hcomment⟩ := not_or.mp hkind
          simp [constructs, Lexeme.token, content, htext, hcomment]
      rw [hcons, ih (by omega) hrest, contents_of_scan hscan, List.append_assoc]

theorem constructs_tokens {cs : List Char} (h : tokens cs = .ok ts) :
    constructs ts = contents none 0 cs ++ [(.eof, [])] :=
  constructs_tokensFrom le_rfl h

/-- The second content is the first one but for blanks in a string literal. -/
def SameButBlanks (a b : TokenKind × List Char) : Prop :=
  a.1 = b.1 ∧ (a.1 ≠ .string → a.2 = b.2) ∧ withoutBlanks a.2 = withoutBlanks b.2

theorem Worn.sameButBlanks {a b c : TokenKind × List Char} (hab : Worn a b) (hac : Worn a c) :
    SameButBlanks b c := by
  obtain ⟨hkind, hval⟩ := hab
  obtain ⟨hkind', hval'⟩ := hac
  refine ⟨hkind.symm.trans hkind', fun hstring => ?_, ?_⟩
  · have hno : a.1 ≠ .string := hkind ▸ hstring
    exact (hval.resolve_right fun h => hno h.1).symm.trans (hval'.resolve_right fun h => hno h.1)
  · have hblanks : ∀ {d : TokenKind × List Char}, a.2 = d.2 ∨ a.1 = .string ∧ '\n' ∈ a.2 ∧
        List.Sublist d.2 a.2 ∧ withoutBlanks a.2 = withoutBlanks d.2 →
        withoutBlanks a.2 = withoutBlanks d.2 := fun h => h.elim (congrArg _) fun h => h.2.2.2
    exact (hblanks hval).symm.trans (hblanks hval')

/-- The options take the tokens of the layout without options to those of any other. -/
theorem worn_normalize (layout : Layout) (hclose : ¬ ['-', '}', '\n'] <:+: source)
    (hopen : ¬ ['{', '%', '}', '\n'] <:+: normalize ⟨false, false⟩ source)
    (htags : TagsApart (dropTrimMarkers (dropLastNewline source))) :
    List.Forall₂ Worn (contents none 0 (normalize ⟨false, false⟩ source))
      (contents none 0 (normalize layout source)) := by
  have hsheds := (shedsAll_breaks layout hclose).dropTrimMarkers (fun _ _ h => h.gap) breaks_lasting
  have hworn := (Tidy.worn ⟨htags, hopen⟩ hsheds).2
  simpa only [normalize, obeyOptions, stripStarts_true_eq_sift, trimEnds_zero_eq_sift,
    Bool.false_eq_true, if_false] using hworn

/-- **The options never change the tokens outside of literal text, but for blanks in string literals
of several lines.** They change others only where the text has `-}` or `{%}` right before a newline, or
a tag around a generated passage that stands right behind a word and before a newline. -/
theorem constructs_eq_of_layouts (layout layout' : Layout)
    (hclose : ¬ ['-', '}', '\n'] <:+: source)
    (hopen : ¬ ['{', '%', '}', '\n'] <:+: normalize ⟨false, false⟩ source)
    (htags : TagsApart (dropTrimMarkers (dropLastNewline source)))
    (h : tokens (normalize layout source) = .ok ts)
    (h' : tokens (normalize layout' source) = .ok ts') :
    List.Forall₂ SameButBlanks (constructs ts) (constructs ts') ∧
      ((∀ a ∈ contents none 0 (normalize ⟨false, false⟩ source), a.1 = .string → '\n' ∉ a.2) →
        constructs ts = constructs ts') := by
  have hworn := worn_normalize layout hclose hopen htags
  have hworn' := worn_normalize layout' hclose hopen htags
  rw [constructs_tokens h, constructs_tokens h']
  have hend : List.Forall₂ SameButBlanks [(.eof, [])] [(.eof, [])] :=
    .cons ⟨rfl, fun _ => rfl, rfl⟩ .nil
  have hjoin : ∀ a b c, Worn a b → Worn a c → SameButBlanks b c := fun _ _ _ => Worn.sameButBlanks
  refine ⟨List.rel_append (forall₂_join hjoin hworn hworn') hend, fun hlines => ?_⟩
  have hsame : ∀ {cs : List (TokenKind × List Char)},
      List.Forall₂ Worn (contents none 0 (normalize ⟨false, false⟩ source)) cs →
      contents none 0 (normalize ⟨false, false⟩ source) = cs := fun hcs => by
    have hboth := (List.forall₂_and_left _ _).mpr ⟨hlines, hcs⟩
    have heq : List.Forall₂ (· = ·) _ _ := hboth.imp fun a b ⟨hline, hkind, hval⟩ =>
      Prod.ext hkind (hval.resolve_right fun h => hline h.1 h.2.1)
    rwa [List.forall₂_eq_eq_eq] at heq
  rw [← hsame hworn, ← hsame hworn']

/-- A generated passage with its tags on lines of their own. -/
def generatedLines : List Char :=
  "\x7b% generation %\x7d\n\x7b\x7b 1 \x7d\x7d\x7b% endgeneration %\x7d\n.".toList

theorem generated_lines_keep_constructs :
    ¬ ['-', '}', '\n'] <:+: generatedLines ∧
      ¬ ['{', '%', '}', '\n'] <:+: normalize ⟨false, false⟩ generatedLines ∧
      TagsApart (dropTrimMarkers (dropLastNewline generatedLines)) ∧
      ∃ ts ts', tokens (normalize ⟨false, false⟩ generatedLines) = .ok ts ∧
        tokens (normalize ⟨false, true⟩ generatedLines) = .ok ts' ∧ ts ≠ ts' ∧
        List.Forall₂ SameButBlanks (constructs ts) (constructs ts') ∧
        constructs ts = constructs ts' := by
  have hclose : ¬ ['-', '}', '\n'] <:+: generatedLines := by decide +kernel
  have hopen : ¬ ['{', '%', '}', '\n'] <:+: normalize ⟨false, false⟩ generatedLines := by
    decide +kernel
  have htags : TagsApart (dropTrimMarkers (dropLastNewline generatedLines)) := by decide +kernel
  have h : tokens (normalize ⟨false, false⟩ generatedLines) = .ok
      [⟨.text, "\n", ⟨1, 1⟩⟩, ⟨.openExpression, "\x7b\x7b", ⟨2, 1⟩⟩, ⟨.number, "1", ⟨2, 4⟩⟩,
        ⟨.closeExpression, "\x7d\x7d", ⟨2, 6⟩⟩, ⟨.text, "\n.", ⟨2, 8⟩⟩, ⟨.eof, "", ⟨3, 2⟩⟩] := by
    decide +kernel
  have h' : tokens (normalize ⟨false, true⟩ generatedLines) = .ok
      [⟨.openExpression, "\x7b\x7b", ⟨1, 1⟩⟩, ⟨.number, "1", ⟨1, 4⟩⟩,
        ⟨.closeExpression, "\x7d\x7d", ⟨1, 6⟩⟩, ⟨.text, ".", ⟨1, 8⟩⟩, ⟨.eof, "", ⟨1, 9⟩⟩] := by
    decide +kernel
  have hsame := constructs_eq_of_layouts ⟨false, false⟩ ⟨false, true⟩ hclose hopen htags h h'
  exact ⟨hclose, hopen, htags, _, _, h, h', by decide, hsame.1, hsame.2 (by decide +kernel)⟩

/-- The options do not know of string literals. -/
theorem literal_changed_by_layout :
    (tokens (normalize ⟨false, false⟩ "\x7b\x7b \"%\x7d\nb\" \x7d\x7d".toList)).toOption.map constructs =
        some [(.openExpression, ['{', '{']), (.string, ['%', '}', '\n', 'b']),
          (.closeExpression, ['}', '}']), (.eof, [])] ∧
      (tokens (normalize ⟨false, true⟩ "\x7b\x7b \"%\x7d\nb\" \x7d\x7d".toList)).toOption.map constructs =
        some [(.openExpression, ['{', '{']), (.string, ['%', '}', 'b']),
          (.closeExpression, ['}', '}']), (.eof, [])] := by
  decide +kernel

/-- Each of the conditions is needed: without it a newline can part tokens that are one without
it. -/
example :
    ((tokens (normalize ⟨false, false⟩ "\x7b\x7b 1 -\x7d\n\x7d".toList)).toOption.map constructs =
          some [(.openExpression, ['{', '{']), (.number, ['1']), (.additive, ['-']),
            (.closeCurly, ['}']), (.closeCurly, ['}']), (.eof, [])] ∧
        (tokens (normalize ⟨false, true⟩ "\x7b\x7b 1 -\x7d\n\x7d".toList)).toOption.map constructs =
          some [(.openExpression, ['{', '{']), (.number, ['1']), (.closeExpression, ['}', '}']),
            (.eof, [])]) ∧
      ((tokens (normalize ⟨false, false⟩ "\x7b%\x7d\n\x7d".toList)).toOption.map constructs =
          some [(.openStatement, ['{', '%']), (.closeCurly, ['}']), (.closeCurly, ['}']),
            (.eof, [])] ∧
        (tokens (normalize ⟨false, true⟩ "\x7b%\x7d\n\x7d".toList)).toOption.map constructs =
          some [(.openStatement, ['{', '%']), (.closeExpression, ['}', '}']), (.eof, [])]) ∧
      ((tokens (normalize ⟨false, false⟩
            "\x7b\x7b 1\x7b% generation %\x7d\n2 \x7d\x7d".toList)).toOption.map constructs =
          some [(.openExpression, ['{', '{']), (.number, ['1']), (.number, ['2']),
            (.closeExpression, ['}', '}']), (.eof, [])] ∧
        (tokens (normalize ⟨false, true⟩
            "\x7b\x7b 1\x7b% generation %\x7d\n2 \x7d\x7d".toList)).toOption.map constructs =
          some [(.openExpression, ['{', '{']), (.number, ['1', '2']),
            (.closeExpression, ['}', '}']), (.eof, [])]) := by
  decide +kernel

end

end ChatTemplate.Layout
