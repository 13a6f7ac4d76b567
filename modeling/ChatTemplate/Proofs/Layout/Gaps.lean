import ChatTemplate.Proofs.Layout.TrimMarkers
import Mathlib.Logic.Relation

/-!
# Blanks that go at a gap

A blank can go without bringing two characters of a word together where a blank, a closing brace or
nothing stands before it (`Gap`). The passes for the trim dashes do not see how many blanks stand at
such a place (`Indifferent`): they take all of them or none. So two texts of which one has a blank
more at a gap are taken to two such texts, or to one (`Indifferent.sheds`), and the tags around a
generated passage are the same in both (`dropGenerationTags_insert`). The one word that a blank
behind a closing brace can split is the marker `-}}`.
-/

namespace ChatTemplate.Layout
open Text

/-! ### Words across a place -/

/-- The word begins right before the place between the two texts and ends behind it. -/
def Straddles (word u v : List Char) : Prop :=
  ∃ w₁ w₂, word = w₁ ++ w₂ ∧ w₁ ≠ [] ∧ w₂ ≠ [] ∧ w₁ <:+ u ∧ w₂ <+: v

section
variable {word u v r : List Char} {b x : Char}

theorem Straddles.of_suffix (h : Straddles word r v) (hr : r <:+ u) : Straddles word u v := by
  obtain ⟨w₁, w₂, hword, h₁, h₂, hu, hv⟩ := h
  exact ⟨w₁, w₂, hword, h₁, h₂, hu.trans hr, hv⟩

/-- The word, read backwards, straddles the place from the other side. -/
theorem Straddles.of_reverse (h : Straddles word.reverse r.reverse u.reverse) (hr : r <+: v) :
    Straddles word u v := by
  obtain ⟨w₁, w₂, hword, h₁, h₂, hr', hu⟩ := h
  refine ⟨w₂.reverse, w₁.reverse, ?_, by simpa using h₂, by simpa using h₁, ?_, ?_⟩
  · rw [← List.reverse_append, ← hword, List.reverse_reverse]
  · simpa using List.reverse_suffix.mpr hu
  · exact (List.reverse_suffix.mp (by simpa using hr')).trans hr

theorem not_straddles_blank (hword : ∀ c ∈ word, isBlank c = false) (hb : isBlank b) :
    ¬ Straddles word u (b :: v) := by
  rintro ⟨w₁, w₂, rfl, -, h₂, -, hv⟩
  cases w₂ with
  | nil => exact h₂ rfl
  | cons c w₂ =>
    obtain ⟨rfl, -⟩ := List.cons_prefix_cons.mp hv
    rw [hword c (by simp)] at hb
    cases hb

/-- What straddles no place is found before it or not at all. -/
theorem prefix_append_iff_of_not_straddles (hr : r ≠ []) (h : ¬ Straddles word r v) :
    word <+: r ++ v ↔ word <+: r := by
  refine ⟨fun hword => ?_, fun hword => hword.trans (List.prefix_append r v)⟩
  rcases List.prefix_or_prefix_of_prefix hword (List.prefix_append r v) with hfront | ⟨w, rfl⟩
  · exact hfront
  · cases w with
    | nil => simp
    | cons c w =>
      exact absurd ⟨r, c :: w, rfl, hr, by simp, List.suffix_refl r,
        (List.prefix_append_right_inj r).mp hword⟩ h

theorem prefix_insert_iff (hword : ∀ c ∈ word, isBlank c = false) (hb : isBlank b) (hr : r ≠ [])
    (h : ¬ Straddles word r v) : word <+: r ++ b :: v ↔ word <+: r ++ v := by
  rw [prefix_append_iff_of_not_straddles hr h,
    prefix_append_iff_of_not_straddles hr (not_straddles_blank hword hb)]

theorem concat_suffix_concat_iff {y : Char} :
    word ++ [x] <:+ u ++ [y] ↔ word <:+ u ∧ x = y := by
  rw [← List.reverse_prefix]
  simp [and_comm]

theorem eq_of_suffix_concat {y : Char} (h : [x] <:+ u ++ [y]) : x = y :=
  (concat_suffix_concat_iff.mp (show [] ++ [x] <:+ u ++ [y] from h)).2

/-- A blank that stands behind this text brings no word together where it goes. -/
def Gap (u : List Char) : Prop := ∀ x, [x] <:+ u → isBlank x ∨ x = '}'

theorem Gap.of_suffix (h : Gap u) (hr : r <:+ u) : Gap r := fun x hx => h x (hx.trans hr)

theorem Gap.not_straddles (h : Gap u) (hword : ∀ c ∈ word, isBlank c = false)
    (hclose : '}' ∉ word.dropLast) : ¬ Straddles word u v := by
  rintro ⟨w₁, w₂, rfl, h₁, h₂, hu, -⟩
  obtain ⟨w, x, rfl⟩ := (List.eq_nil_or_concat' w₁).resolve_left h₁
  have hx : [x] <:+ u := (List.suffix_append w [x]).trans hu
  rw [List.dropLast_append_of_ne_nil h₂] at hclose
  rcases h x hx with hblank | rfl
  · rw [hword x (by simp)] at hblank
    cases hblank
  · exact hclose (by simp)

/-- A text before a gap holds a character that is neither blank nor a closing brace only in front of
others. -/
theorem Gap.tail_ne_nil {c : Char} (h : Gap (c :: u)) (hblank : isBlank c = false) (hc : c ≠ '}') :
    u ≠ [] := by
  rintro rfl
  rcases h c (List.suffix_refl _) with hc' | hc'
  · rw [hblank] at hc'
    cases hc'
  · exact hc hc'

/-- What neither goes on with a blank nor with a closing brace stops before a gap. -/
theorem Gap.dropWhile_ne_nil {p : Char → Bool} (h : Gap u) (hne : u ≠ [])
    (hp : ∀ c : Char, isBlank c → p c = false) (hclose : p '}' = false) : u.dropWhile p ≠ [] := by
  obtain ⟨l, x, rfl⟩ := (List.eq_nil_or_concat' u).resolve_left hne
  have hx : p x = false := by
    rcases h x (List.suffix_append l [x]) with hblank | rfl
    · exact hp x hblank
    · exact hclose
  exact (dropWhile_append_of_solid hx (List.suffix_append l [x]) []).2

theorem dropBlanks_append_cases (r : List Char) :
    (∀ s, dropBlanks (r ++ s) = dropBlanks s) ∨
      dropBlanks r ≠ [] ∧ ∀ s, dropBlanks (r ++ s) = dropBlanks r ++ s := by
  unfold dropBlanks
  simp only [List.dropWhile_append, List.isEmpty_iff]
  by_cases hr : r.dropWhile (fun c : Char => isBlank c) = []
  · exact .inl fun s => if_pos hr
  · exact .inr ⟨hr, fun s => if_neg hr⟩

theorem dropBlanks_suffix (cs : List Char) : dropBlanks cs <:+ cs :=
  List.dropWhile_suffix _

theorem dropBlanks_append_of_blank (hr : ∀ c ∈ r, isBlank c) (s : List Char) :
    dropBlanks (r ++ s) = dropBlanks s := by
  rcases dropBlanks_append_cases r with h | ⟨hne, -⟩
  · exact h s
  · exact absurd (List.dropWhile_eq_nil_iff.mpr hr) hne

theorem prefix_dropBlanks_insert_iff (hword : ∀ c ∈ word, isBlank c = false) (hb : isBlank b)
    (h : ¬ Straddles word r v) :
    word <+: dropBlanks (r ++ b :: v) ↔ word <+: dropBlanks (r ++ v) := by
  rcases dropBlanks_append_cases r with hr | ⟨hne, hr⟩
  · rw [hr, hr, dropBlanks_cons_of_blank hb]
  · rw [hr, hr]
    exact prefix_insert_iff hword hb hne fun hs => h (hs.of_suffix (dropBlanks_suffix r))

end

/-! ### A pass over a gap -/

/-- The rule does not see how many blanks stand between the two texts, and takes all of them or
none. -/
structure Indifferent (drops : Rule) (b : Char) (u v : List Char) : Prop where
  ahead : ∀ l c r, u = l ++ c :: r → drops l.reverse c (r ++ b :: v) = drops l.reverse c (r ++ v)
  back : ∀ l c r, v = l ++ c :: r →
    drops (l.reverse ++ b :: u.reverse) c r = drops (l.reverse ++ u.reverse) c r
  run : ∀ (l : List Char) (x : Char) (r : List Char), u = l ++ x :: r → isBlank x →
    (∀ c ∈ r, isBlank c) → drops l.reverse x (r ++ v) = drops u.reverse b v

section
variable {drops : Rule} {edge b : Char} {u v t t' : List Char}

theorem Indifferent.sift_eq (h : Indifferent drops b u v) :
    sift drops [] [] (u ++ b :: v) = sift drops [] v u ++
      if drops u.reverse b v then sift drops u.reverse [] v
      else b :: sift drops u.reverse [] v := by
  have hfront : sift drops [] (b :: v) u = sift drops [] v u :=
    sift_congr fun l c r hu => by simpa using h.ahead l c r hu
  have hback : sift drops (b :: u.reverse) [] v = sift drops u.reverse [] v :=
    sift_congr fun l c r hv => by simpa using h.back l c r hv
  rw [sift_append, List.append_nil, List.append_nil, hfront, sift, hback, List.append_nil]

theorem sift_append_nil (drops : Rule) (u v : List Char) :
    sift drops [] [] (u ++ v) = sift drops [] v u ++ sift drops u.reverse [] v := by
  rw [sift_append, List.append_nil, List.append_nil]

theorem Indifferent.sift_concat (h : Indifferent drops b u v) (hlocal : Local drops) (hu : Gap u)
    (hkeep : drops u.reverse b v = false) {l : List Char} {x : Char} (hl : u = l ++ [x]) :
    sift drops [] v u = sift drops [] (x :: v) l ++ [x] := by
  have hx : drops l.reverse x v = false := by
    rcases hu x ⟨l, hl.symm⟩ with hblank | rfl
    · rw [← hkeep]
      exact h.run l x [] hl hblank (by simp)
    · exact hlocal.keeps_closeBrace ..
  rw [hl, sift_append, List.append_nil, sift_cons_of_keeps hx, sift, List.singleton_append]

theorem Indifferent.gap (h : Indifferent drops b u v) (hlocal : Local drops)
    (hkeep : drops u.reverse b v = false) (hu : Gap u) : Gap (sift drops [] v u) := by
  rcases List.eq_nil_or_concat' u with rfl | ⟨l, x, rfl⟩
  · simp [sift, Gap]
  · intro y hy
    rw [h.sift_concat hlocal hu hkeep rfl] at hy
    obtain rfl := eq_of_suffix_concat hy
    exact hu y (List.suffix_append l [y])

theorem not_dash_of_blank {c : Char} (h : isBlank c) : c ≠ '-' := by
  rintro rfl
  cases h

theorem afterRule_indifferent (hedge : IsEdge edge) (hb : isBlank b)
    (hcloser : ¬ Straddles (closer edge) u v) : Indifferent (afterRule edge) b u v := by
  have hword := (closer_isWall hedge).solid
  refine ⟨fun l c r hu => ?_, fun l c r hv => ?_, fun l x r hu hx hr => ?_⟩
  · rw [Bool.eq_iff_iff, afterRule_iff, afterRule_iff]
    refine or_congr_left (and_congr_right ?_)
    rintro rfl
    have hr : ¬ Straddles (closer edge) ('-' :: r) v := fun h => hcloser (h.of_suffix ⟨l, hu.symm⟩)
    simpa [closer] using prefix_insert_iff hword hb (by simp) hr
  · have hl : ¬ Straddles (closer edge).reverse l.reverse u.reverse := fun h =>
      hcloser (h.of_reverse ⟨c :: r, hv.symm⟩)
    have hmark := prefix_dropBlanks_insert_iff (fun c hc => hword c (List.mem_reverse.mp hc)) hb hl
    rw [Bool.eq_iff_iff, afterRule_iff, afterRule_iff]
    exact or_congr_right (and_congr_right fun _ => hmark)
  · have hrun : dropBlanks u.reverse = dropBlanks l.reverse := by
      have hall : ∀ c ∈ x :: r, isBlank c := List.forall_mem_cons.mpr ⟨hx, hr⟩
      have hrev : ∀ c ∈ (x :: r).reverse, isBlank c := fun c hc => hall c (List.mem_reverse.mp hc)
      rw [hu, List.reverse_append, dropBlanks_append_of_blank hrev]
    rw [Bool.eq_iff_iff, afterRule_iff, afterRule_iff, hrun]
    simp [not_dash_of_blank, hx, hb]

theorem beforeRule_indifferent (hedge : IsEdge edge) (hb : isBlank b)
    (hopener : ¬ Straddles (opener edge) u v) : Indifferent (beforeRule edge) b u v := by
  have hword := (opener_isWall hedge).solid
  refine ⟨fun l c r hu => ?_, fun l c r hv => ?_, fun l x r hu hx hr => ?_⟩
  · have hr : ¬ Straddles (opener edge) r v := fun h => hopener (h.of_suffix ⟨l ++ [c], by simp [hu]⟩)
    have hmark := prefix_dropBlanks_insert_iff hword hb hr
    rw [Bool.eq_iff_iff, beforeRule_iff, beforeRule_iff]
    exact or_congr_right (and_congr_right fun _ => hmark)
  · rw [Bool.eq_iff_iff, beforeRule_iff, beforeRule_iff]
    refine or_congr_left (and_congr_right ?_)
    rintro rfl
    have hl : ¬ Straddles (opener edge).reverse ('-' :: l.reverse) u.reverse := fun h => by
      have hfront : l ++ ['-'] <+: v := ⟨r, by simp [hv]⟩
      rw [← List.singleton_append, ← List.reverse_singleton, ← List.reverse_append] at h
      exact hopener (h.of_reverse hfront)
    simpa [opener] using
      prefix_insert_iff (fun c hc => hword c (List.mem_reverse.mp hc)) hb (by simp) hl
  · rw [Bool.eq_iff_iff, beforeRule_iff, beforeRule_iff, dropBlanks_append_of_blank hr]
    simp [not_dash_of_blank, hx, hb]

/-- What is asked of the place of a blank, given the text before it, the blank and the text behind
it. -/
abbrev Place := List Char → Char → List Char → Prop

/-- The second text is the first one without a blank at such a place. -/
def Sheds (place : Place) (t t' : List Char) : Prop :=
  ∃ (u : List Char) (b : Char) (v : List Char),
    t = u ++ b :: v ∧ t' = u ++ v ∧ isBlank b ∧ place u b v

/-- Blanks at such places go, one after the other. -/
abbrev ShedsAll (place : Place) : List Char → List Char → Prop :=
  Relation.ReflTransGen (Sheds place)

theorem ShedsAll.sift {place place' : Place}
    (hrule : ∀ (u : List Char) (b : Char) (v : List Char), isBlank b → place u b v →
      Indifferent drops b u v)
    (hplace : ∀ (u : List Char) (b : Char) (v : List Char), isBlank b → place u b v →
      Indifferent drops b u v → drops u.reverse b v = false →
      place' (sift drops [] v u) b (sift drops u.reverse [] v))
    (ht : ShedsAll place t t') :
    ShedsAll place' (Layout.sift drops [] [] t) (Layout.sift drops [] [] t') := by
  refine ht.lift' _ ?_
  rintro _ _ ⟨u, b, v, rfl, rfl, hb, h⟩
  have hindiff := hrule u b v hb h
  change ShedsAll place' (Layout.sift drops [] [] (u ++ b :: v)) (Layout.sift drops [] [] (u ++ v))
  rw [hindiff.sift_eq, sift_append_nil]
  cases hdrop : drops u.reverse b v with
  | true => exact .refl
  | false => exact .single ⟨_, b, _, rfl, rfl, hb, hplace u b v hb h hindiff hdrop⟩

/-- What is said of the text before a blank stays true in every pass that keeps the blank. -/
def Lasting (held : List Char → Char → Prop) : Prop :=
  ∀ ⦃drops : Rule⦄ ⦃b : Char⦄ ⦃u v : List Char⦄, Local drops → Indifferent drops b u v →
    drops u.reverse b v = false → held u b → held (sift drops [] v u) b

theorem gap_lasting : Lasting fun u _ => Gap u :=
  fun _ _ _ _ hlocal hindiff hkeep h => hindiff.gap hlocal hkeep h

/-- The one closing marker that a blank at a gap can split: `-}` stands before it and `}` behind. -/
def SplitsCloser (u v : List Char) : Prop := ['-', '}'] <:+ u ∧ ['}'] <+: v

theorem Gap.splitsCloser_of_straddles (hu : Gap u) (h : Straddles (closer '}') u v) :
    SplitsCloser u v := by
  obtain ⟨w₁, w₂, hword, h₁, h₂, hu', hv'⟩ := h
  match w₁ with
  | [] => exact absurd rfl h₁
  | [x] =>
    obtain ⟨rfl, rfl⟩ := List.cons.inj hword
    rcases hu '-' hu' with hblank | hclose
    · cases hblank
    · cases hclose
  | [x, y] =>
    obtain ⟨rfl, hrest⟩ := List.cons.inj hword
    obtain ⟨rfl, rfl⟩ := List.cons.inj hrest
    exact ⟨hu', hv'⟩
  | x :: y :: z :: w₁ =>
    refine absurd ?_ h₂
    have hlength := congrArg List.length hword
    simp only [closer, List.length_append, List.length_cons, List.length_nil] at hlength
    exact List.eq_nil_of_length_eq_zero (by omega)

/-- A pass that takes nothing behind a dash nor before a closing brace brings no marker `-}}` to a
blank. -/
theorem not_splitsCloser_sift (hlocal : Local drops) (hindiff : Indifferent drops b u v)
    (hu : Gap u) (hkeep : drops u.reverse b v = false) (hdash : HoldsBehind drops '-' ('}' :: v))
    (hbrace : ∀ before, HoldsBefore drops ('}' :: '-' :: before) '}') (h : ¬ SplitsCloser u v) :
    ¬ SplitsCloser (sift drops [] v u) (sift drops u.reverse [] v) := by
  rintro ⟨hu', hv'⟩
  rcases List.eq_nil_or_concat' u with rfl | ⟨l, x, rfl⟩
  · simp [sift] at hu'
  · rw [hindiff.sift_concat hlocal hu hkeep rfl] at hu'
    obtain ⟨hl, rfl⟩ := concat_suffix_concat_iff.mp (show ['-'] ++ ['}'] <:+ _ ++ [x] from hu')
    obtain ⟨l, rfl, -⟩ := hdash.suffix_sift hlocal (show [] ++ ['-'] <:+ _ from hl)
    have hbefore : HoldsBefore drops (l ++ ['-'] ++ ['}']).reverse '}' := by
      simpa using hbrace l.reverse
    obtain ⟨r, rfl, -⟩ := hbefore.prefix_sift hlocal (show '}' :: [] <+: _ from hv')
    exact h ⟨⟨l, by simp⟩, ⟨r, rfl⟩⟩

theorem Gap.afterRule_indifferent (hu : Gap u) (hedge : IsEdge edge) (hclose : edge ≠ '}')
    (hb : isBlank b) : Indifferent (afterRule edge) b u v :=
  Layout.afterRule_indifferent hedge hb
    (hu.not_straddles (closer_isWall hedge).solid (by simp [closer, hclose.symm]))

theorem Gap.beforeRule_indifferent (hu : Gap u) (hedge : IsEdge edge) (hclose : edge ≠ '}')
    (hb : isBlank b) : Indifferent (beforeRule edge) b u v :=
  Layout.beforeRule_indifferent hedge hb
    (hu.not_straddles (opener_isWall hedge).solid (by simp [opener, hclose.symm]))

/-- Blanks at gaps that split no marker `-}}` are still at gaps once the trim dashes are obeyed. -/
theorem ShedsAll.dropTrimMarkers {held : List Char → Char → Prop} (hgap : ∀ u b, held u b → Gap u)
    (hlast : Lasting held) (ht : ShedsAll (fun u b v => held u b ∧ ¬ SplitsCloser u v) t t') :
    ShedsAll (fun u b _ => held u b) (dropTrimMarkers t) (dropTrimMarkers t') := by
  simp only [Layout.dropTrimMarkers, dropAfter_zero_eq_sift, dropBefore_zero_eq_sift,
    isEdge_percent, isEdge_hash, isEdge_openBrace, isEdge_closeBrace]
  have hafterPercent : ShedsAll (fun u b v => held u b ∧ ¬ SplitsCloser u v) _ _ := ht.sift
    (fun u b v hb h => (hgap u b h.1).afterRule_indifferent isEdge_percent (by decide) hb)
    fun u b v hb h hindiff hkeep => by
      have hlocal := afterRule_local isEdge_percent (by decide)
      refine ⟨hlast hlocal hindiff hkeep h.1,
        not_splitsCloser_sift hlocal hindiff (hgap u b h.1) hkeep ?_ (fun before => ?_) h.2⟩
      · exact afterRule_holdsBehind isEdge_percent rfl (by decide) (by simp)
      · exact afterRule_holdsBefore isEdge_percent (by decide)
          (by simp [dropBlanks_cons_of_not_blank (show isBlank '}' = false from rfl)])
  have hbeforePercent : ShedsAll (fun u b v => held u b ∧ ¬ SplitsCloser u v) _ _ :=
    hafterPercent.sift
    (fun u b v hb h => (hgap u b h.1).beforeRule_indifferent isEdge_percent (by decide) hb)
    fun u b v hb h hindiff hkeep => by
      have hlocal := beforeRule_local isEdge_percent (by decide)
      refine ⟨hlast hlocal hindiff hkeep h.1,
        not_splitsCloser_sift hlocal hindiff (hgap u b h.1) hkeep ?_ (fun before => ?_) h.2⟩
      · exact beforeRule_holdsBehind (by decide) rfl (by simp [opener])
      · exact beforeRule_holdsBefore rfl (by decide) (by simp)
  have hafterBrace : ShedsAll (fun u b _ => held u b) _ _ := hbeforePercent.sift
    (fun u b v hb h => Layout.afterRule_indifferent isEdge_closeBrace hb
      fun hs => h.2 ((hgap u b h.1).splitsCloser_of_straddles hs))
    fun u b v hb h hindiff hkeep =>
      hlast (afterRule_local isEdge_closeBrace (by decide)) hindiff hkeep h.1
  have hbeforeBrace : ShedsAll (fun u b _ => held u b) _ _ := hafterBrace.sift
    (fun u b v hb h => (hgap u b h).beforeRule_indifferent isEdge_openBrace (by decide) hb)
    fun u b v hb h hindiff hkeep =>
      hlast (beforeRule_local isEdge_openBrace (by decide)) hindiff hkeep h
  have hafterHash : ShedsAll (fun u b _ => held u b) _ _ := hbeforeBrace.sift
    (fun u b v hb h => (hgap u b h).afterRule_indifferent isEdge_hash (by decide) hb)
    fun u b v hb h hindiff hkeep =>
      hlast (afterRule_local isEdge_hash (by decide)) hindiff hkeep h
  exact hafterHash.sift
    (fun u b v hb h => (hgap u b h).beforeRule_indifferent isEdge_hash (by decide) hb)
    fun u b v hb h hindiff hkeep =>
      hlast (beforeRule_local isEdge_hash (by decide)) hindiff hkeep h

end

/-! ### The options -/

section
variable {drops : Rule} {place : Place} {t u v : List Char}

/-- A pass that takes blanks at such places only. What stands behind a blank has been passed over
already, what stands before it has not. -/
theorem shedsAll_sift (h : ∀ (u : List Char) (b : Char) (v : List Char), t = u ++ b :: v →
    drops u.reverse b v → isBlank b ∧ place u b (sift drops (b :: u.reverse) [] v)) :
    ShedsAll place t (sift drops [] [] t) := by
  have hpart : ∀ u v, t = u ++ v → ShedsAll place (u ++ v) (u ++ sift drops u.reverse [] v) := by
    intro u v hsplit
    induction v generalizing u with
    | nil => exact .refl
    | cons b v ih =>
      have hrest := ih (u ++ [b]) (by simp [hsplit])
      rw [List.reverse_append, List.append_assoc, List.append_assoc] at hrest
      refine hrest.trans ?_
      cases hdrop : drops u.reverse b v with
      | true =>
        obtain ⟨hb, hplace⟩ := h u b v hsplit hdrop
        rw [sift_cons_of_drops (by simpa using hdrop)]
        exact .single ⟨u, b, _, rfl, rfl, hb, hplace⟩
      | false =>
        rw [sift_cons_of_keeps (by simpa using hdrop)]
        exact .refl
  exact hpart [] t rfl

end

end ChatTemplate.Layout
