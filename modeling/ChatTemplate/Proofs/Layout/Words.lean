import ChatTemplate.Proofs.Layout.Local

/-!
# Words that the passes do not form

A pass deletes blanks and dashes only (`Loose`). So it forms a word out of other characters only
where it deletes something within the word or at its edge. `HoldsBefore` and `HoldsBehind` say of a
character that nothing beside it goes; `Firm.prefix_of_prefix_sift` and `suffix_of_suffix_sift`
carry a word of such characters back to the text the pass was given.
-/

namespace ChatTemplate.Layout
open Text

section
variable {drops : Rule} {before after u v word : List Char} {q : Char}

/-- What a pass can delete. -/
def Loose (c : Char) : Prop := isBlank c ∨ c = '-'

/-- Nothing right before this character goes. -/
def HoldsBefore (drops : Rule) (before : List Char) (q : Char) : Prop :=
  ∀ c d r, Loose c → (∀ x ∈ d, Loose x) → drops before c (d ++ q :: r) = false

/-- Nothing right behind this character goes. -/
def HoldsBehind (drops : Rule) (q : Char) (after : List Char) : Prop :=
  ∀ l c d, Loose c → (∀ x ∈ d, Loose x) → drops (q :: l) c (d ++ after) = false

theorem exists_loose_front (h : Local drops) (hq : q :: word <+: sift drops before [] v) :
    ∃ d r, v = d ++ q :: r ∧ ∀ x ∈ d, Loose x := by
  induction v generalizing before with
  | nil => simp [sift] at hq
  | cons c v ih =>
    rw [sift] at hq
    split_ifs at hq with hc
    · obtain ⟨d, r, rfl, hd⟩ := ih hq
      exact ⟨c :: d, r, rfl, List.forall_mem_cons.mpr ⟨h.loose hc, hd⟩⟩
    · obtain ⟨rfl, -⟩ := List.cons_prefix_cons.mp hq
      exact ⟨[], v, rfl, by simp⟩

theorem HoldsBefore.prefix_sift (hold : HoldsBefore drops before q) (h : Local drops)
    (hq : q :: word <+: sift drops before [] v) :
    ∃ r, v = q :: r ∧ word <+: sift drops (q :: before) [] r := by
  cases v with
  | nil => simp [sift] at hq
  | cons c v =>
    rw [sift] at hq
    split_ifs at hq with hc
    · obtain ⟨d, r, rfl, hd⟩ := exists_loose_front h hq
      rw [List.append_nil, hold c d r (h.loose hc) hd] at hc
      cases hc
    · obtain ⟨rfl, hword⟩ := List.cons_prefix_cons.mp hq
      exact ⟨v, rfl, hword⟩

theorem HoldsBehind.suffix_sift (hold : HoldsBehind drops q after) (h : Local drops)
    (hq : word ++ [q] <:+ sift drops [] after u) :
    ∃ l, u = l ++ [q] ∧ word <:+ sift drops [] (q :: after) l := by
  induction u using List.reverseRecOn generalizing after with
  | nil => simp [sift] at hq
  | append_singleton u c ih =>
    rw [sift_append, List.append_nil, sift, sift, List.singleton_append] at hq
    split_ifs at hq with hc
    · rw [List.append_nil] at hq
      have hhold : HoldsBehind drops q (c :: after) := by
        intro l a d ha hd
        have hall : ∀ x ∈ d ++ [c], Loose x :=
          List.forall_mem_append.mpr ⟨hd, List.forall_mem_singleton.mpr (h.loose hc)⟩
        simpa using hold l a (d ++ [c]) ha hall
      obtain ⟨l, rfl, -⟩ := ih hhold hq
      have hkeep := hold l.reverse c [] (h.loose hc) (by simp)
      rw [List.reverse_append, List.reverse_singleton, List.singleton_append] at hc
      rw [hkeep] at hc
      cases hc
    · rcases List.suffix_concat_iff.mp hq with hnil | ⟨word', heq, hword⟩
      · exact absurd hnil (by simp)
      · obtain ⟨rfl, hqc⟩ := List.append_inj' heq rfl
        obtain rfl := List.singleton_inj.mp hqc
        exact ⟨u, rfl, hword⟩

theorem suffix_of_suffix_sift {p : Char} (h : Local drops) (hq : HoldsBehind drops q after)
    (hp : HoldsBehind drops p (q :: after)) (hu : [p, q] <:+ sift drops [] after u) :
    [p, q] <:+ u := by
  obtain ⟨l, rfl, hl⟩ := hq.suffix_sift h (show [p] ++ [q] <:+ sift drops [] after u from hu)
  obtain ⟨l, rfl, -⟩ := hp.suffix_sift h (show [] ++ [p] <:+ sift drops [] (q :: after) l from hl)
  exact ⟨l, by simp⟩

/-- The pass deletes nothing within such a word, nor before it. -/
def Firm (drops : Rule) : List Char → List Char → Prop
  | _, [] => True
  | before, q :: word => HoldsBefore drops before q ∧ Firm drops (q :: before) word

theorem Firm.exists_rest {s : List Char} (hword : Firm drops before word) (h : Local drops)
    (hv : word ++ s <+: sift drops before [] v) :
    ∃ r, v = word ++ r ∧ s <+: sift drops (word.reverse ++ before) [] r := by
  induction word generalizing before v with
  | nil => exact ⟨v, rfl, hv⟩
  | cons q word ih =>
    obtain ⟨r, rfl, hr⟩ := hword.1.prefix_sift h hv
    obtain ⟨r, rfl, hs⟩ := ih hword.2 hr
    rw [List.reverse_cons, List.append_assoc]
    exact ⟨r, rfl, hs⟩

theorem Firm.prefix_of_prefix_sift (hword : Firm drops before word) (h : Local drops)
    (hv : word <+: sift drops before [] v) : word <+: v := by
  obtain ⟨r, rfl, -⟩ := hword.exists_rest (s := []) h (by simpa using hv)
  exact List.prefix_append word r

end

/-! ### Which characters hold -/

section
variable {before after : List Char} {edge q : Char}

theorem IsEdge.not_loose (h : IsEdge edge) : ¬ Loose edge := by
  rintro (hblank | hdash)
  · rw [h.blank] at hblank
    cases hblank
  · exact h.dash hdash

/-- Where nothing but loose characters stands before `q`, a word that begins with another character
begins at `q` at the earliest. -/
theorem eq_of_prefix_loose {p : Char → Bool} {a : Char} {d r word : List Char} (ha : ¬ Loose a)
    (hp : p q = false) (hd : ∀ x ∈ d, Loose x)
    (h : a :: word <+: (d ++ q :: r).dropWhile p) : a = q := by
  rw [dropWhile_append_of_head hp] at h
  cases hrest : d.dropWhile p with
  | nil =>
    rw [hrest] at h
    exact (List.cons_prefix_cons.mp h).1
  | cons x d' =>
    rw [hrest] at h
    obtain ⟨rfl, -⟩ := List.cons_prefix_cons.mp h
    have hmem : a ∈ d := (List.dropWhile_sublist p).subset (hrest ▸ List.mem_cons_self)
    exact absurd (hd a hmem) ha

theorem not_loose_openBrace : ¬ Loose '{' := by
  rintro (h | h) <;> cases h

theorem stripRule_holdsBefore (hq : isSpaceOrTab q = false) (hopen : q ≠ '{') :
    HoldsBefore stripRule before q := by
  intro c d r hc hd
  have htag : startsTag ((d ++ q :: r).dropWhile isSpaceOrTab) = false := by
    rw [Bool.eq_false_iff, Ne, startsTag_iff]
    rintro ⟨e, -, htag⟩
    exact hopen (eq_of_prefix_loose not_loose_openBrace hq hd htag).symm
  rw [stripRule, htag, Bool.and_false, Bool.false_and]

theorem trimRule_holdsBefore (h : endsTag before = false) : HoldsBefore trimRule before q := by
  intro c d r hc hd
  rw [trimRule, h, Bool.and_false]

theorem afterRule_holdsBefore (hedge : IsEdge edge) (hq : q ≠ edge)
    (hbefore : ¬ ['}', edge, '-'] <+: dropBlanks before) :
    HoldsBefore (afterRule edge) before q := by
  intro c d r hc hd
  rw [Bool.eq_false_iff, Ne, afterRule_iff]
  rintro (⟨-, hafter⟩ | ⟨-, hblank⟩)
  · have hall : d ++ q :: r = (d ++ q :: r).dropWhile fun _ => false := by cases d <;> rfl
    rw [hall] at hafter
    exact hq (eq_of_prefix_loose hedge.not_loose rfl hd hafter).symm
  · exact hbefore hblank

theorem beforeRule_holdsBefore (hq : isBlank q = false) (hopen : q ≠ '{')
    (hbefore : ¬ [edge, '{'] <+: before) : HoldsBefore (beforeRule edge) before q := by
  intro c d r hc hd
  rw [Bool.eq_false_iff, Ne, beforeRule_iff]
  rintro (⟨-, hdash⟩ | ⟨-, hafter⟩)
  · exact hbefore hdash
  · exact hopen (eq_of_prefix_loose not_loose_openBrace hq hd hafter).symm

theorem stripRule_holdsBehind (hq : isBlank q = false) : HoldsBehind stripRule q after := by
  intro l c d hc hd
  have hline : atLineStart (q :: l) = false := by
    rw [atLineStart, List.dropWhile_cons_of_neg (by simp [not_isSpaceOrTab hq])]
    rw [List.head?_cons, Option.all_some, beq_eq_false_iff_ne]
    rintro rfl
    cases hq
  rw [stripRule, hline, Bool.and_false]

theorem trimRule_holdsBehind (hq : q ≠ '}') : HoldsBehind trimRule q after := by
  intro l c d hc hd
  have hends : endsTag (q :: l) = false := by
    rw [Bool.eq_false_iff, Ne, endsTag_iff]
    rintro ⟨e, -, hend⟩
    exact hq (List.cons_prefix_cons.mp hend).1.symm
  rw [trimRule, hends, Bool.and_false]

theorem afterRule_holdsBehind (hedge : IsEdge edge) (hq : isBlank q = false) (hclose : q ≠ '}')
    (hafter : ¬ [edge, '}'] <+: after) : HoldsBehind (afterRule edge) q after := by
  intro l c d hc hd
  rw [Bool.eq_false_iff, Ne, afterRule_iff]
  rintro (⟨-, hdash⟩ | ⟨-, hblank⟩)
  · cases d with
    | nil => exact hafter hdash
    | cons x d =>
      obtain ⟨rfl, -⟩ := List.cons_prefix_cons.mp hdash
      exact hedge.not_loose (hd _ List.mem_cons_self)
  · rw [dropBlanks_cons_of_not_blank hq] at hblank
    exact hclose (List.cons_prefix_cons.mp hblank).1.symm

theorem beforeRule_holdsBehind {x : Char} (hq : q ≠ edge) (hx : isBlank x = false)
    (hafter : ¬ opener edge <+: x :: after) : HoldsBehind (beforeRule edge) q (x :: after) := by
  intro l c d hc hd
  rw [Bool.eq_false_iff, Ne, beforeRule_iff]
  rintro (⟨-, hdash⟩ | ⟨-, hopen⟩)
  · exact hq (List.cons_prefix_cons.mp hdash).1.symm
  · have hdrop : dropBlanks (d ++ x :: after) = dropBlanks d ++ x :: after :=
      dropWhile_append_of_head hx d after
    rw [hdrop] at hopen
    cases hrest : dropBlanks d with
    | nil =>
      rw [hrest] at hopen
      exact hafter hopen
    | cons y d' =>
      rw [hrest] at hopen
      obtain ⟨rfl, -⟩ := List.cons_prefix_cons.mp hopen
      have hmem : '{' ∈ d := (List.dropWhile_sublist _).subset (hrest ▸ List.mem_cons_self)
      exact not_loose_openBrace (hd _ hmem)

end

/-! ### Which words are firm -/

section
variable {before word : List Char} {edge : Char}

theorem stripRule_firm (hword : ∀ c ∈ word, isSpaceOrTab c = false ∧ c ≠ '{') :
    Firm stripRule before word := by
  induction word generalizing before with
  | nil => trivial
  | cons q word ih =>
    obtain ⟨hq, hword⟩ := List.forall_mem_cons.mp hword
    exact ⟨stripRule_holdsBefore hq.1 hq.2, ih hword⟩

theorem afterRule_firm (hedge : IsEdge edge) (hword : edge ∉ word) (hbefore : edge ∉ before) :
    Firm (afterRule edge) before word := by
  induction word generalizing before with
  | nil => trivial
  | cons q word ih =>
    rw [List.mem_cons, not_or] at hword
    have hno : ¬ ['}', edge, '-'] <+: dropBlanks before := fun h =>
      hbefore ((List.dropWhile_sublist _).subset (h.subset (by simp)))
    refine ⟨afterRule_holdsBefore hedge (Ne.symm hword.1) hno, ih hword.2 ?_⟩
    rw [List.mem_cons, not_or]
    exact ⟨hword.1, hbefore⟩

theorem beforeRule_firm (hword : ∀ c ∈ word, isBlank c = false ∧ c ≠ '{')
    (hmark : ¬ [edge, '{'] <+: before) (hopen : ¬ ['{'] <+: before) :
    Firm (beforeRule edge) before word := by
  induction word generalizing before with
  | nil => trivial
  | cons q word ih =>
    obtain ⟨hq, hword⟩ := List.forall_mem_cons.mp hword
    refine ⟨beforeRule_holdsBefore hq.1 hq.2 hmark, ih hword (fun h => ?_) fun h => ?_⟩
    · exact hopen (List.cons_prefix_cons.mp h).2
    · exact hq.2 (List.cons_prefix_cons.mp h).1.symm

end

/-! ### Words that a pass does form -/

section
variable {before v word : List Char}

/-- A newline between two braces goes where the first one ends a tag. -/
theorem prefix_of_prefix_trim (hword : Firm trimRule before (word ++ ['}']))
    (hv : word ++ ['}', '}'] <+: sift trimRule before [] v) :
    word ++ ['}', '}'] <+: v ∨ word ++ ['}', '\n', '}'] <+: v := by
  obtain ⟨r, rfl, hr⟩ := hword.exists_rest (s := ['}']) trimRule_local (by simpa using hv)
  cases r with
  | nil => simp [sift] at hr
  | cons c r =>
    rw [sift] at hr
    split_ifs at hr with hc
    · rw [trimRule, Bool.and_eq_true, beq_iff_eq] at hc
      obtain ⟨rfl, -⟩ := hc
      obtain ⟨r, rfl, -⟩ := (trimRule_holdsBefore rfl).prefix_sift trimRule_local hr
      exact .inr ⟨r, by simp⟩
    · obtain ⟨rfl, -⟩ := List.cons_prefix_cons.mp hr
      exact .inl ⟨r, by simp⟩

/-- The dash of the marker `-}}` goes, whatever stands before it. -/
theorem prefix_of_prefix_afterBrace {q : Char} (hq : isBlank q = false) (hclose : q ≠ '}')
    (hbefore : '}' ∉ before) (hv : [q, '}'] <+: sift (afterRule '}') before [] v) :
    [q, '}'] <+: v ∨ [q, '-', '}', '}'] <+: v := by
  have hword : Firm (afterRule '}') before [q] :=
    afterRule_firm isEdge_closeBrace (by simpa using hclose.symm) hbefore
  have hlocal : Local (afterRule '}') := afterRule_local isEdge_closeBrace (by decide)
  obtain ⟨r, rfl, hr⟩ := hword.exists_rest (s := ['}']) hlocal hv
  cases r with
  | nil => simp [sift] at hr
  | cons c r =>
    rw [sift] at hr
    split_ifs at hr with hc
    · rcases afterRule_iff.mp hc with ⟨rfl, hmark⟩ | ⟨-, hblank⟩
      · rw [List.append_nil] at hmark
        obtain ⟨r, rfl⟩ := hmark
        exact .inr ⟨r, by simp⟩
      · rw [List.reverse_singleton, List.singleton_append,
          dropBlanks_cons_of_not_blank hq] at hblank
        exact absurd (List.cons_prefix_cons.mp hblank).1.symm hclose
    · obtain ⟨rfl, -⟩ := List.cons_prefix_cons.mp hr
      exact .inl ⟨r, by simp⟩

end

end ChatTemplate.Layout
