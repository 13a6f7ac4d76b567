import ChatTemplate.Proofs.Layout.Gaps

/-!
# What the options of a layout can change

Whatever the options, the same marks are removed from a text: two layouts differ in blanks only
(`normalize_blanks_only`). The options take blanks at gaps, so that the text of any layout comes from
the one without options by taking blanks at gaps, one after the other (`shedsAll_obeyOptions`). None
of them makes or breaks a trim dash or a tag around a generated passage, unless it stands between
`-}` and `}`.
-/

namespace ChatTemplate.Layout
open Text

section
variable {drops : Rule} {place : Place} {before t u v word s : List Char} {b : Char}

theorem exists_split_of_sift (h : sift drops before [] t = u ++ s) :
    ∃ l r, t = l ++ r ∧ sift drops (l.reverse ++ before) [] r = s := by
  induction t generalizing before u with
  | nil =>
    obtain ⟨-, rfl⟩ := List.append_eq_nil_iff.mp h.symm
    exact ⟨[], [], rfl, rfl⟩
  | cons c t ih =>
    cases u with
    | nil => exact ⟨[], c :: t, rfl, h⟩
    | cons a u =>
      rw [sift] at h
      split_ifs at h
      · obtain ⟨l, r, rfl, hr⟩ := ih h
        exact ⟨c :: l, r, rfl, by simpa using hr⟩
      · obtain ⟨l, r, rfl, hr⟩ := ih (List.cons.inj h).2
        exact ⟨c :: l, r, rfl, by simpa using hr⟩

/-- The pass over the starts of the lines forms no word without spaces, tabs and opening braces. -/
theorem infix_of_infix_strip (hword : ∀ c ∈ word, isSpaceOrTab c = false ∧ c ≠ '{')
    (h : word <:+: sift stripRule [] [] t) : word <:+: t := by
  obtain ⟨u, s, hsplit⟩ := h
  rw [List.append_assoc] at hsplit
  obtain ⟨l, r, rfl, hr⟩ := exists_split_of_sift hsplit.symm
  have hfront : word <+: r :=
    (stripRule_firm hword).prefix_of_prefix_sift stripRule_local (hr ▸ List.prefix_append word s)
  exact hfront.isInfix.trans (List.suffix_append l r).isInfix

/-- The options take a blank that stands between the start of a line and a tag, or a newline behind
the end of a tag. -/
theorem shedsAll_obeyOptions (layout : Layout) {source : List Char}
    (hstrip : ∀ (u : List Char) (b : Char) (v : List Char), isSpaceOrTab b →
      atLineStart u.reverse → place u b v)
    (htrim : ∀ u r : List Char, endsTag u.reverse →
      u ++ '\n' :: r = dropLastNewline source ∨
        u ++ '\n' :: r = sift stripRule [] [] (dropLastNewline source) →
      place u '\n' (sift trimRule ('\n' :: u.reverse) [] r)) :
    ShedsAll place (dropLastNewline source) (obeyOptions layout source) := by
  have hlines : ∀ t, ShedsAll place t (sift stripRule [] [] t) := fun t =>
    shedsAll_sift fun u b v hsplit hdrop => by
      simp only [stripRule, Bool.and_eq_true] at hdrop
      exact ⟨isBlank_of_isSpaceOrTab hdrop.1.1, hstrip u b _ hdrop.1.1 hdrop.2⟩
  have hends : ∀ t, t = dropLastNewline source ∨
      t = sift stripRule [] [] (dropLastNewline source) →
      ShedsAll place t (sift trimRule [] [] t) := fun t ht =>
    shedsAll_sift fun u b v hsplit hdrop => by
      rw [trimRule, Bool.and_eq_true, beq_iff_eq] at hdrop
      obtain ⟨rfl, hend⟩ := hdrop
      exact ⟨rfl, htrim u v hend (by rwa [← hsplit])⟩
  unfold obeyOptions
  cases layout.stripLineStarts <;> cases layout.trimLineEnds
  · exact .refl
  · exact hends _ (.inl rfl)
  · exact hlines _
  · exact (hlines _).trans (hends _ (.inr rfl))

end

/-! ### The tags around a generated passage -/

section
variable {word cs rest r v : List Char} {b : Char}

theorem after?_eq_some : after? word cs = some rest ↔ cs = word ++ rest := by
  rw [after?]
  split_ifs with h
  · obtain ⟨more, rfl⟩ := List.isPrefixOf_iff_prefix.mp h
    simp [eq_comm]
  · refine iff_of_false nofun ?_
    rintro rfl
    exact h (List.isPrefixOf_iff_prefix.mpr (List.prefix_append word rest))

/-- What follows the name of such a tag. -/
def generationName? (cs : List Char) : Option (List Char) :=
  after? "generation".toList ((after? "end".toList cs).getD cs)

theorem afterGenerationTag?_eq (cs : List Char) : afterGenerationTag? cs =
    (after? ['{', '%'] cs).bind fun cs => (generationName? (dropBlanks cs)).bind fun cs =>
      after? ['%', '}'] (dropBlanks cs) := rfl

theorem afterGenerationTag?_eq_some : afterGenerationTag? cs = some rest →
    ∃ tag, cs = tag ++ '}' :: rest := by
  intro h
  simp only [afterGenerationTag?, Option.bind_eq_bind, Option.bind_eq_some_iff,
    after?_eq_some] at h
  obtain ⟨inner, rfl, name, hname, hclose⟩ := h
  have hinner : name <:+ inner := by
    have hend : (after? "end".toList (dropBlanks inner)).getD (dropBlanks inner) <:+ inner := by
      cases hafter : after? "end".toList (dropBlanks inner) with
      | none => exact dropBlanks_suffix inner
      | some r =>
        have hsplit : r <:+ dropBlanks inner := ⟨_, (after?_eq_some.mp hafter).symm⟩
        exact hsplit.trans (dropBlanks_suffix inner)
    exact (List.suffix_append _ name).trans (hname ▸ hend)
  have hrest : '}' :: rest <:+ name := by
    have hblanks := dropBlanks_suffix name
    rw [hclose] at hblanks
    exact (List.suffix_cons '%' ('}' :: rest)).trans hblanks
  obtain ⟨front, hfront⟩ := hrest.trans hinner
  exact ⟨['{', '%'] ++ front, by rw [List.append_assoc, hfront]⟩

theorem dropGenerationTags_eq_drop (left : Nat) (cs : List Char) :
    dropGenerationTags left cs = dropGenerationTags 0 (cs.drop left) := by
  induction cs generalizing left with
  | nil => simp [dropGenerationTags]
  | cons c cs ih =>
    cases left with
    | zero => rfl
    | succ left => rw [dropGenerationTags, ih, List.drop_succ_cons]

theorem dropGenerationTags_of_tag (h : afterGenerationTag? cs = some rest) :
    dropGenerationTags 0 cs = dropGenerationTags 0 rest := by
  obtain ⟨tag, rfl⟩ := afterGenerationTag?_eq_some h
  cases tag with
  | nil =>
    rw [List.nil_append] at h ⊢
    rw [dropGenerationTags, h]
    simp
  | cons c tag =>
    rw [List.cons_append] at h ⊢
    have hlength : (tag ++ '}' :: rest).length - rest.length = (tag ++ ['}']).length := by
      simp only [List.length_append, List.length_cons, List.length_nil]
      omega
    simp only [dropGenerationTags, h]
    rw [dropGenerationTags_eq_drop, hlength, List.append_cons tag '}' rest,
      List.drop_left]

theorem dropGenerationTags_of_none {c : Char} (h : afterGenerationTag? (c :: cs) = none) :
    dropGenerationTags 0 (c :: cs) = c :: dropGenerationTags 0 cs := by
  rw [dropGenerationTags, h]

/-- A word is found before a gap or not at all, whatever stands behind the gap. -/
theorem Gap.after?_append (hr : Gap r) (hne : r ≠ []) (hword : ∀ c ∈ word, isBlank c = false)
    (hclose : '}' ∉ word.dropLast) (s : List Char) :
    Layout.after? word (r ++ s) = (Layout.after? word r).map (· ++ s) := by
  have hfront : word <+: r ++ s ↔ word <+: r :=
    prefix_append_iff_of_not_straddles hne (hr.not_straddles hword hclose)
  simp only [Layout.after?, List.isPrefixOf_iff_prefix, hfront]
  split_ifs with h
  · rw [Option.map_some, List.drop_append_of_le_length h.length_le]
  · rfl

/-- No gap stands right behind a word that ends with no closing brace. -/
theorem Gap.ne_nil_of_after? (hr : Gap r) (hword : ∀ c ∈ word, isBlank c = false ∧ c ≠ '}')
    (hne : word ≠ []) (h : Layout.after? word r = some rest) : rest ≠ [] ∧ Gap rest := by
  obtain rfl := after?_eq_some.mp h
  refine ⟨?_, hr.of_suffix (List.suffix_append word rest)⟩
  rintro rfl
  obtain ⟨w, x, rfl⟩ := (List.eq_nil_or_concat' word).resolve_left hne
  obtain ⟨hblank, hbrace⟩ := hword x (by simp)
  rcases hr x ⟨w, by simp⟩ with h | h
  · rw [hblank] at h
    cases h
  · exact hbrace h

theorem Gap.generationName?_append (hr : Gap r) (hne : r ≠ []) (s : List Char) :
    generationName? (r ++ s) = (generationName? r).map (· ++ s) := by
  have hend : ∀ c ∈ "end".toList, isBlank c = false ∧ c ≠ '}' := forall_mem_of_all (by decide)
  have hname : ∀ c ∈ "generation".toList, isBlank c = false := forall_mem_of_all (by decide)
  rw [generationName?, generationName?,
    hr.after?_append hne (fun c hc => (hend c hc).1) (by decide)]
  cases h : Layout.after? "end".toList r with
  | none => exact hr.after?_append hne hname (by decide) s
  | some r' =>
    obtain ⟨hne', hr'⟩ := hr.ne_nil_of_after? hend (by simp) h
    exact hr'.after?_append hne' hname (by decide) s

theorem Gap.ne_nil_of_generationName? (hr : Gap r) (h : generationName? r = some rest) :
    rest ≠ [] ∧ Gap rest := by
  have hsuffix : (Layout.after? "end".toList r).getD r <:+ r := by
    cases hend : Layout.after? "end".toList r with
    | none => exact List.suffix_refl r
    | some r' => exact ⟨_, (after?_eq_some.mp hend).symm⟩
  exact (hr.of_suffix hsuffix).ne_nil_of_after? (forall_mem_of_all (by decide)) (by simp) h

/-- A tag that begins before a gap ends before it, or nowhere, or the gap stands where the number of
blanks is of no account. -/
theorem Gap.afterGenerationTag?_append (hr : Gap r) (hne : r ≠ []) :
    (∀ s, Layout.afterGenerationTag? (r ++ s) = none) ∨
      (∃ r', ∀ s, Layout.afterGenerationTag? (r ++ s) = some (r' ++ s)) ∨
      ∃ f : List Char → Option (List Char),
        ∀ s, Layout.afterGenerationTag? (r ++ s) = f (dropBlanks s) := by
  have hopen : ∀ c ∈ ['{', '%'], isBlank c = false ∧ c ≠ '}' := forall_mem_of_all (by decide)
  simp only [afterGenerationTag?_eq,
    hr.after?_append hne (fun c hc => (hopen c hc).1) (by decide)]
  cases h₁ : Layout.after? ['{', '%'] r with
  | none => exact .inl fun s => rfl
  | some r₁ =>
    obtain ⟨hne₁, hr₁⟩ := hr.ne_nil_of_after? hopen (by simp) h₁
    simp only [Option.map_some, Option.bind_some]
    rcases dropBlanks_append_cases r₁ with hblank | ⟨hne₂, hblank⟩
    · exact .inr (.inr ⟨fun cs => (generationName? cs).bind fun cs =>
        Layout.after? ['%', '}'] (dropBlanks cs), fun s => by rw [hblank]⟩)
    · have hr₂ := hr₁.of_suffix (dropBlanks_suffix r₁)
      simp only [hblank, hr₂.generationName?_append hne₂]
      cases h₂ : generationName? (dropBlanks r₁) with
      | none => exact .inl fun s => rfl
      | some r₃ =>
        obtain ⟨hne₃, hr₃⟩ := hr₂.ne_nil_of_generationName? h₂
        simp only [Option.map_some, Option.bind_some]
        rcases dropBlanks_append_cases r₃ with hblank | ⟨hne₄, hblank⟩
        · exact .inr (.inr ⟨Layout.after? ['%', '}'], fun s => by rw [hblank]⟩)
        · have hr₄ := hr₃.of_suffix (dropBlanks_suffix r₃)
          have hclose : ∀ c ∈ ['%', '}'], isBlank c = false := forall_mem_of_all (by decide)
          simp only [hblank, hr₄.after?_append hne₄ hclose (by decide)]
          cases Layout.after? ['%', '}'] (dropBlanks r₃) with
          | none => exact .inl fun s => rfl
          | some r₅ => exact .inr (.inl ⟨r₅, fun s => rfl⟩)

theorem Gap.afterGenerationTag?_insert (hb : isBlank b) (hr : Gap r) (hne : r ≠ []) :
    (Layout.afterGenerationTag? (r ++ b :: v) = none ∧ Layout.afterGenerationTag? (r ++ v) = none) ∨
      (∃ tag r', r = tag ++ '}' :: r' ∧
        Layout.afterGenerationTag? (r ++ b :: v) = some (r' ++ b :: v) ∧
        Layout.afterGenerationTag? (r ++ v) = some (r' ++ v)) ∨
      ∃ rest, Layout.afterGenerationTag? (r ++ b :: v) = some rest ∧
        Layout.afterGenerationTag? (r ++ v) = some rest := by
  rcases hr.afterGenerationTag?_append hne with hnone | ⟨r', htag⟩ | ⟨f, htag⟩
  · exact .inl ⟨hnone _, hnone _⟩
  · obtain ⟨tag, hsplit⟩ := afterGenerationTag?_eq_some (htag [])
    rw [List.append_nil, List.append_nil] at hsplit
    exact .inr (.inl ⟨tag, r', hsplit, htag _, htag _⟩)
  · rw [htag, htag, dropBlanks_cons_of_blank hb]
    cases f (dropBlanks v) with
    | none => exact .inl ⟨rfl, rfl⟩
    | some rest => exact .inr (.inr ⟨rest, rfl, rfl⟩)

theorem afterGenerationTag?_of_blank (hb : isBlank b) (v : List Char) :
    afterGenerationTag? (b :: v) = none := by
  have hopen : after? ['{', '%'] (b :: v) = none := by
    rw [after?, if_neg]
    rw [List.isPrefixOf_iff_prefix]
    intro h
    obtain ⟨rfl, -⟩ := List.cons_prefix_cons.mp h
    cases hb
  rw [afterGenerationTag?_eq, hopen, Option.bind_none]

/-- What remains of a text before `s` once the tags around generated passages in it are taken out. -/
inductive Remains (s : List Char) : List Char → List Char → Prop
  | nil : Remains s [] []
  | keep {r r' : List Char} (c : Char) (h : Remains s r r') : Remains s (c :: r) (c :: r')
  | skip {tag r r' : List Char} (htag : afterGenerationTag? (tag ++ '}' :: (r ++ s)) = some (r ++ s))
    (h : Remains s r r') : Remains s (tag ++ '}' :: r) r'

/-- The tags go alike with or without a blank at a gap. -/
theorem dropGenerationTags_insert (hb : isBlank b) (hr : Gap r) :
    dropGenerationTags 0 (r ++ b :: v) = dropGenerationTags 0 (r ++ v) ∨
      ∃ r', Remains (b :: v) r r' ∧
        dropGenerationTags 0 (r ++ b :: v) = r' ++ b :: dropGenerationTags 0 v ∧
        dropGenerationTags 0 (r ++ v) = r' ++ dropGenerationTags 0 v := by
  induction hn : r.length using Nat.strong_induction_on generalizing r with
  | _ n ih =>
    subst hn
    cases r with
    | nil =>
      refine .inr ⟨[], .nil, ?_, rfl⟩
      rw [List.nil_append, dropGenerationTags_of_none (afterGenerationTag?_of_blank hb v),
        List.nil_append]
    | cons c r =>
      rcases hr.afterGenerationTag?_insert hb (by simp) with
        ⟨h, h'⟩ | ⟨tag, r', hsplit, h, h'⟩ | ⟨rest, h, h'⟩
      · rw [List.cons_append] at h h'
        rw [List.cons_append, List.cons_append, dropGenerationTags_of_none h,
          dropGenerationTags_of_none h']
        rcases ih r.length (by simp) (hr.of_suffix (List.suffix_cons c r)) rfl with
          heq | ⟨r', hremains, heq, heq'⟩
        · exact .inl (by rw [heq])
        · exact .inr ⟨c :: r', hremains.keep c, by rw [heq, List.cons_append],
            by rw [heq', List.cons_append]⟩
      · have hlength : r'.length < (c :: r).length := by
          rw [hsplit, List.length_append, List.length_cons]
          omega
        have hsuffix : r' <:+ c :: r := ⟨tag ++ ['}'], by simp [hsplit]⟩
        rw [dropGenerationTags_of_tag h, dropGenerationTags_of_tag h', hsplit]
        refine (ih r'.length hlength (hr.of_suffix hsuffix) rfl).imp_right ?_
        rintro ⟨r'', hremains, heq⟩
        rw [hsplit, List.append_assoc, List.cons_append] at h
        exact ⟨r'', hremains.skip h, heq⟩
      · exact .inl (by rw [dropGenerationTags_of_tag h, dropGenerationTags_of_tag h'])

end

/-! ### The layouts of a text -/

section
variable {t t' source : List Char}

/-- A text without its blanks. -/
def withoutBlanks (cs : List Char) : List Char := cs.filter fun c => !isBlank c

theorem withoutBlanks_dropGenerationTags (ht : ShedsAll (fun u _ _ => Gap u) t t') :
    withoutBlanks (dropGenerationTags 0 t) = withoutBlanks (dropGenerationTags 0 t') := by
  induction ht with
  | refl => rfl
  | tail _ hstep ih =>
    obtain ⟨u, b, v, rfl, rfl, hb, hu⟩ := hstep
    rw [ih]
    rcases dropGenerationTags_insert hb hu with h | ⟨u', -, h, h'⟩
    · rw [h]
    · rw [h, h', withoutBlanks, withoutBlanks, List.filter_append, List.filter_append,
        List.filter_cons_of_neg (by simp [hb])]

theorem isBlank_of_atLineStart {u : List Char} (h : atLineStart u.reverse) :
    ∀ x, [x] <:+ u → isBlank x := by
  rintro x ⟨l, rfl⟩
  rw [List.reverse_append, List.reverse_singleton, List.singleton_append, atLineStart] at h
  cases hx : isSpaceOrTab x with
  | true => exact isBlank_of_isSpaceOrTab hx
  | false =>
    rw [List.dropWhile_cons_of_neg (by simp [hx])] at h
    obtain rfl : x = '\n' := by simpa using h
    rfl

theorem exists_edge_of_endsTag {u : List Char} (h : endsTag u.reverse) :
    ∃ l e, isTagEdge e ∧ u = l ++ [e, '}'] := by
  obtain ⟨e, he, hend⟩ := endsTag_iff.mp h
  have hsuffix : [e, '}'] <:+ u := List.reverse_prefix.mp hend
  obtain ⟨l, rfl⟩ := hsuffix
  exact ⟨l, e, he, rfl⟩

/-- The options take blanks at gaps that split no marker. -/
theorem shedsAll_gap (layout : Layout) (hsource : ¬ ['-', '}', '\n', '}'] <:+: source) :
    ShedsAll (fun u _ v => Gap u ∧ ¬ SplitsCloser u v) (dropLastNewline source)
      (obeyOptions layout source) := by
  have hlast : ¬ ['-', '}', '\n', '}'] <:+: dropLastNewline source := fun h =>
    hsource (h.trans (dropLastNewline_front source).isInfix)
  refine shedsAll_obeyOptions layout (fun u b v _ hline => ⟨fun x hx => ?_, ?_⟩)
    fun u r hend hsplit => ⟨fun x hx => ?_, ?_⟩
  · exact .inl (isBlank_of_atLineStart hline x hx)
  · rintro ⟨hu, -⟩
    cases isBlank_of_atLineStart hline '}' ((List.suffix_cons '-' ['}']).trans hu)
  · obtain ⟨l, e, -, rfl⟩ := exists_edge_of_endsTag hend
    rw [List.append_cons] at hx
    exact .inr (eq_of_suffix_concat hx)
  · rintro ⟨⟨l, rfl⟩, hr⟩
    have hbefore : HoldsBefore trimRule ('\n' :: (l ++ ['-', '}']).reverse) '}' :=
      trimRule_holdsBefore rfl
    obtain ⟨r, rfl, -⟩ := hbefore.prefix_sift trimRule_local (show '}' :: [] <+: _ from hr)
    have hinfix : ['-', '}', '\n', '}'] <:+: l ++ ['-', '}'] ++ '\n' :: '}' :: r :=
      ⟨l, r, by simp⟩
    rcases hsplit with hsplit | hsplit
    · exact hlast (hsplit ▸ hinfix)
    · exact hlast (infix_of_infix_strip (forall_mem_of_all (by decide)) (hsplit ▸ hinfix))

/-- **The options remove nothing but blanks.** Two layouts of one text differ in blanks only, unless
a newline between `-}` and `}` is there to be removed. -/
theorem normalize_blanks_only (layout layout' : Layout) (source : List Char)
    (hsource : ¬ ['-', '}', '\n', '}'] <:+: source) :
    withoutBlanks (normalize layout source) = withoutBlanks (normalize layout' source) := by
  have hplain : ∀ layout, withoutBlanks (normalize layout source) =
      withoutBlanks (dropGenerationTags 0 (dropTrimMarkers (dropLastNewline source))) := by
    intro layout
    have hsheds := (shedsAll_gap layout hsource).dropTrimMarkers (fun _ _ h => h) gap_lasting
    rw [withoutBlanks_dropGenerationTags hsheds, normalize, obeyOptions]
    simp only [stripStarts_true_eq_sift, trimEnds_zero_eq_sift]
  rw [hplain layout, hplain layout']

theorem statement_line_blanks_only :
    ¬ ['-', '}', '\n', '}'] <:+: "a\n \x7b% b %\x7d\nc".toList ∧
      normalize ⟨true, true⟩ "a\n \x7b% b %\x7d\nc".toList ≠
        normalize ⟨false, false⟩ "a\n \x7b% b %\x7d\nc".toList ∧
      withoutBlanks (normalize ⟨true, true⟩ "a\n \x7b% b %\x7d\nc".toList) =
        withoutBlanks (normalize ⟨false, false⟩ "a\n \x7b% b %\x7d\nc".toList) := by
  have hsource : ¬ ['-', '}', '\n', '}'] <:+: "a\n \x7b% b %\x7d\nc".toList := by decide
  exact ⟨hsource, by decide, normalize_blanks_only ⟨true, true⟩ ⟨false, false⟩ _ hsource⟩

/-- Such a newline makes the marker `-}}`, and its dash goes. -/
example :
    normalize ⟨false, false⟩ ['-', '}', '\n', '}'] = ['-', '}', '\n', '}'] ∧
      normalize ⟨false, true⟩ ['-', '}', '\n', '}'] = ['}', '}'] := by
  decide

end

end ChatTemplate.Layout
