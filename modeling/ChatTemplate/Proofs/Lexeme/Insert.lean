import ChatTemplate.Proofs.Layout.Options
import ChatTemplate.Proofs.Lexeme.Append

/-!
# Scanning with a blank more

A blank that stands at a gap, and does not part a closing brace from what the brace would be read
with, is of no account for the scanner (`Idle`): with it and without it the next lexeme is the same,
and ends before the blank, or holds the blank or the gap where it stands (`scan_insert`). There is
one lemma for each scanner. Only in a string literal the blank is missed; such a literal has several
lines (`Worn`).
-/

namespace ChatTemplate.Lexeme
open Text Layout

/-- The class and the value of a lexeme, unless it is literal text or a comment. -/
def content (x : Lexeme) : List (TokenKind × List Char) :=
  if x.kind = .text ∨ x.kind = .comment then [] else [(x.kind, x.value)]

/-! ### A blank more -/

/-- The second content is the first one, or a string literal of several lines with some blanks
less. -/
def Worn (a b : TokenKind × List Char) : Prop :=
  a.1 = b.1 ∧ (a.2 = b.2 ∨ a.1 = .string ∧ '\n' ∈ a.2 ∧ List.Sublist b.2 a.2 ∧
    withoutBlanks a.2 = withoutBlanks b.2)

theorem Worn.refl (a : TokenKind × List Char) : Worn a a := ⟨rfl, .inl rfl⟩

theorem Worn.trans {a b c : TokenKind × List Char} (hab : Worn a b) (hbc : Worn b c) :
    Worn a c := by
  obtain ⟨hkind, hval⟩ := hab
  obtain ⟨hkind', hval'⟩ := hbc
  refine ⟨hkind.trans hkind', ?_⟩
  rcases hval' with heq' | ⟨hs', hline', hsub', hblanks'⟩
  · rw [← heq']
    exact hval
  · rcases hval with heq | ⟨hs, hline, hsub, hblanks⟩
    · rw [heq]
      exact .inr ⟨hkind.trans hs', hline', hsub', hblanks'⟩
    · exact .inr ⟨hs, hline, hsub'.trans hsub, hblanks.trans hblanks'⟩

/-- The text would close a tag with a closing brace right before it, or begin a comment if there
were no blank. -/
def Joins (v : List Char) : Prop := ['}'] <+: v ∨ ['{', '#'] <+: v

/-- The blank is a newline, or nothing but blanks stands between it and one, or the start. -/
def NewLine (u : List Char) (b : Char) : Prop :=
  b = '\n' ∨ (∀ c ∈ u, isBlank c) ∨ ∃ l g, u = l ++ g ∧ (∀ c ∈ g, isBlank c) ∧ '\n' ∈ g

/-- A blank between two texts that is of no account for the tokens: it stands at a gap, and it does
not part a closing brace from what the brace would be read with. In a string literal a newline stands
before it or is meant. -/
structure Idle (u : List Char) (b : Char) (v : List Char) : Prop where
  blank : isBlank b
  gap : Gap u
  brace : ['}'] <:+ u → Joins v → ['#', '}'] <:+ u ∨ ['%', '}'] <:+ u ∧ ¬ ['{', '%', '}'] <:+ u
  line : NewLine u b

section
variable {last : Option TokenKind} {depth : Int} {b c : Char} {r u v rest : List Char}

/-! ### Literal text and comments -/

theorem splitAtTag_insert (hb : isBlank b) (hr : Gap r) :
    (∃ text r', r = text ++ r' ∧ r' ≠ [] ∧ ∀ s, splitAtTag (r ++ s) = (text, r' ++ s)) ∨
      ∃ text rest, splitAtTag v = (text, rest) ∧
        splitAtTag (r ++ b :: v) = (r ++ b :: text, rest) ∧
        splitAtTag (r ++ v) = (r ++ text, rest) := by
  induction r with
  | nil =>
    refine .inr ⟨(splitAtTag v).1, (splitAtTag v).2, rfl, ?_, rfl⟩
    have hopen : ¬ (b == '{' && opensTag v) := by
      rw [Bool.and_eq_true, beq_iff_eq]
      rintro ⟨rfl, -⟩
      cases hb
    rw [List.nil_append, splitAtTag, if_neg hopen]
    rfl
  | cons c r ih =>
    have hopen : ∀ s, (c == '{' && opensTag (r ++ s)) = (c == '{' && opensTag r) := by
      intro s
      cases hc : c == '{' with
      | false => rfl
      | true =>
        obtain rfl := beq_iff_eq.mp hc
        rw [opensTag_append (hr.tail_ne_nil rfl (by decide))]
    by_cases htag : c == '{' && opensTag r
    · refine .inl ⟨[], c :: r, rfl, by simp, fun s => ?_⟩
      rw [List.cons_append, splitAtTag, hopen, if_pos htag]
    · simp only [List.cons_append, splitAtTag, hopen, if_neg htag]
      rcases ih (hr.of_suffix (List.suffix_cons c r)) with
        ⟨text, r', rfl, hne, h⟩ | ⟨text, rest, hv, h, h'⟩
      · exact .inl ⟨c :: text, r', rfl, hne, fun s => by rw [h]⟩
      · exact .inr ⟨text, rest, hv, by rw [h], by rw [h']⟩

theorem commentBody?_insert (hb : isBlank b) (hr : Gap r) :
    (∃ body r', ∀ s, commentBody? (r ++ s) = some (body, r' ++ s)) ∨
      (commentBody? (r ++ b :: v) = none ∧ commentBody? (r ++ v) = none) ∨
      ∃ body body' rest, commentBody? (r ++ b :: v) = some (body, rest) ∧
        commentBody? (r ++ v) = some (body', rest) := by
  induction r with
  | nil =>
    have hend : ¬ (b == '#' && v.head? == some '}') := by
      rw [Bool.and_eq_true, beq_iff_eq]
      rintro ⟨rfl, -⟩
      cases hb
    rw [List.nil_append, List.nil_append, commentBody?, if_neg hend]
    cases commentBody? v with
    | none => exact .inr (.inl ⟨rfl, rfl⟩)
    | some p => exact .inr (.inr ⟨b :: p.1, p.1, p.2, rfl, rfl⟩)
  | cons c r ih =>
    have hend : ∀ s, (c == '#' && (r ++ s).head? == some '}') = (c == '#' && r.head? == some '}') := by
      intro s
      cases hc : c == '#' with
      | false => rfl
      | true =>
        obtain rfl := beq_iff_eq.mp hc
        rw [List.head?_append_of_ne_nil r (hr.tail_ne_nil rfl (by decide))]
    simp only [List.cons_append, commentBody?, hend]
    by_cases hclose : c == '#' && r.head? == some '}'
    · rw [Bool.and_eq_true, beq_iff_eq, beq_iff_eq] at hclose
      obtain ⟨r, rfl⟩ := List.head?_eq_some_iff.mp hclose.2
      exact .inl ⟨[], r, fun s => by simp [hclose.1]⟩
    · simp only [if_neg hclose]
      rcases ih (hr.of_suffix (List.suffix_cons c r)) with
        ⟨body, r', h⟩ | ⟨h, h'⟩ | ⟨body, body', rest, h, h'⟩
      · exact .inl ⟨c :: body, r', fun s => by rw [h]; rfl⟩
      · exact .inr (.inl ⟨by rw [h]; rfl, by rw [h']; rfl⟩)
      · exact .inr (.inr ⟨c :: body, c :: body', rest, by rw [h]; rfl, by rw [h']; rfl⟩)

/-! ### Names, numbers and strings -/

theorem not_isDigit_of_isBlank (h : isBlank c) : isDigit c = false := by
  simp only [isBlank, Bool.or_eq_true, Bool.and_eq_true, decide_eq_true_eq, beq_iff_eq] at h
  simp only [isDigit, Bool.and_eq_false_iff, decide_eq_false_iff_not]
  omega

/-- Where the blank characters stand, by ranges. -/
def blankRanges : List (Nat × Nat) := [
  (0x09, 0x0D), (0x1C, 0x20), (0x85, 0x85), (0xA0, 0xA0), (0x1680, 0x1680), (0x2000, 0x200A),
  (0x2028, 0x2029), (0x202F, 0x202F), (0x205F, 0x205F), (0x3000, 0x3000)]

theorem exists_blankRange {c : Codepoint} (h : isBlank c) :
    ∃ s ∈ blankRanges, s.1 ≤ c.toNat ∧ c.toNat ≤ s.2 := by
  simp only [isBlank, Bool.or_eq_true, Bool.and_eq_true, decide_eq_true_eq, beq_iff_eq] at h
  simp only [blankRanges, List.mem_cons, List.not_mem_nil, or_false, exists_eq_or_imp,
    exists_eq_left]
  omega

theorem blankRanges_apart : ∀ r ∈ alphanumericRanges, ∀ s ∈ blankRanges, r.2 < s.1 ∨ s.2 < r.1 := by
  decide +kernel

theorem not_isWordChar_of_isBlank (h : isBlank c) : isWordChar c = false := by
  obtain ⟨s, hs, hlow, hhigh⟩ := exists_blankRange h
  have hunderscore : (Codepoint.ofChar c == Codepoint.ofChar '_') = false := by
    rw [beq_eq_false_iff_ne]
    intro heq
    rw [Codepoint.ofChar_injective heq] at h
    cases h
  rw [isWordChar, hunderscore, Bool.false_or, isAlphanumeric, inRanges, List.any_eq_false]
  intro r hr
  have hapart := blankRanges_apart r hr s hs
  simp only [Bool.and_eq_true, decide_eq_true_eq]
  omega

theorem not_isWordChar_closeBrace : isWordChar '}' = false := by
  decide +kernel

theorem takeRun_of_stop {p : Char → Bool} (h : r.dropWhile p ≠ []) (s : List Char) :
    takeRun p (r ++ s) = .ok (r.takeWhile p, r.dropWhile p ++ s) := by
  refine takeRun_append ?_ h s
  rw [takeRun]
  split
  · contradiction
  · rename_i heq
    rw [heq]

theorem takeNumber_insert (hr : Gap r) (hne : r ≠ []) :
    ∃ front r', ∀ s, takeNumber (r ++ s) = .ok (front, r' ++ s) := by
  have hstop : ∀ {r : List Char}, Gap r → r ≠ [] → r.dropWhile (fun c : Char => isDigit c) ≠ [] :=
    fun hr hne => hr.dropWhile_ne_nil hne (fun c hc => not_isDigit_of_isBlank hc) (by decide)
  have hrest := hr.of_suffix (List.dropWhile_suffix fun c : Char => isDigit c)
  have hwhole := takeRun_of_stop (hstop hr hne)
  by_cases hdot : ∃ d fs, r.dropWhile (fun c : Char => isDigit c) = '.' :: d :: fs ∧ isDigit d
  · obtain ⟨d, fs, hfs, hd⟩ := hdot
    rw [hfs] at hrest
    have hfraction : Gap (d :: fs) := hrest.of_suffix (List.suffix_cons '.' _)
    refine ⟨r.takeWhile (fun c : Char => isDigit c) ++
      '.' :: (d :: fs).takeWhile fun c : Char => isDigit c,
      (d :: fs).dropWhile fun c : Char => isDigit c, fun s => ?_⟩
    have hwhole' := hwhole s
    rw [hfs, List.cons_append, List.cons_append] at hwhole'
    have hfraction' := takeRun_of_stop (hstop hfraction (by simp)) s
    rw [List.cons_append] at hfraction'
    rw [takeNumber_of_fraction hwhole' hd, hfraction']
    rfl
  · refine ⟨_, _, fun s => takeNumber_of_whole (hwhole s) fun d fs hfs hd => hdot ?_⟩
    cases hdrop : r.dropWhile (fun c : Char => isDigit c) with
    | nil => exact absurd hdrop (hstop hr hne)
    | cons x more =>
      rw [hdrop] at hfs hrest
      obtain ⟨rfl, hmore⟩ := List.cons.inj hfs
      cases more with
      | nil => exact absurd rfl (hrest.tail_ne_nil rfl (by decide))
      | cons y more =>
        obtain ⟨rfl, -⟩ := List.cons.inj hmore
        exact ⟨y, more, rfl, hd⟩

/-- What is taken of a string literal with and without a blank in the text behind `r`: the literal
ends before the blank, or the blank stands in it, as do the blanks of `r`. -/
inductive SameString (b : Char) (r v : List Char) :
    Except LexFailure (List Char × List Char × List Char) →
    Except LexFailure (List Char × List Char × List Char) → Prop
  | failed (e e' : LexFailure) : SameString b r v (.error e) (.error e')
  | before (value body r' : List Char) :
    SameString b r v (.ok (value, body, r' ++ b :: v)) (.ok (value, body, r' ++ v))
  | past {value value' body body' rest : List Char} (hsub : List.Sublist value' value)
    (hblanks : withoutBlanks value = withoutBlanks value') (hb : b ∈ value)
    (hr : ∀ c ∈ r, isBlank c → c ∈ value) :
    SameString b r v (.ok (value, body, rest)) (.ok (value', body', rest))

theorem withoutBlanks_cons_congr (h : withoutBlanks u = withoutBlanks v) :
    withoutBlanks (c :: u) = withoutBlanks (c :: v) := by
  rw [withoutBlanks, withoutBlanks, List.filter_cons, List.filter_cons]
  change _ = if _ then c :: withoutBlanks v else withoutBlanks v
  rw [← h]
  rfl

theorem SameString.cons {front front' : List Char}
    {y y' : Except LexFailure (List Char × List Char × List Char)} (x : Char) (h : SameString b r v y y')
    (hfront' : ∀ c ∈ front', isBlank c → c = x) :
    SameString b (front' ++ r) v
      (do
        let (value, body, rest) ← afterConsuming front y
        return (x :: value, front' ++ body, rest))
      (do
        let (value, body, rest) ← afterConsuming front y'
        return (x :: value, front' ++ body, rest)) := by
  cases h with
  | failed e e' => exact .failed _ _
  | before value body r' => exact .before (x :: value) (front' ++ body) r'
  | past hsub hblanks hb hr =>
    refine .past (hsub.cons_cons x) (withoutBlanks_cons_congr hblanks)
      (List.mem_cons_of_mem x hb) fun c hc hblank => ?_
    rcases List.mem_append.mp hc with hc | hc
    · rw [hfront' c hc hblank]
      exact List.mem_cons_self
    · exact List.mem_cons_of_mem x (hr c hc hblank)

theorem escape?_blank (h : isBlank c) : escape? c = none := by
  unfold escape?
  split <;> first | rfl | cases h

section
variable {quote e x : Char} {cs : List Char}

theorem takeString_insert (hquote : isBlank quote = false) (hb : isBlank b) (hr : Gap r) :
    SameString b r v (takeString quote (r ++ b :: v)) (takeString quote (r ++ v)) := by
  fun_induction takeString quote r with
  | case1 =>
    have hopen : ¬ b == quote := by
      rw [beq_iff_eq]
      rintro rfl
      rw [hquote] at hb
      cases hb
    have hescape : ¬ b == '\\' := by
      rw [beq_iff_eq]
      rintro rfl
      cases hb
    rw [List.nil_append, List.nil_append, takeString_plain hopen hescape]
    cases takeString quote v with
    | error e => exact .failed _ _
    | ok taken =>
      refine .past (List.sublist_cons_self ..) ?_ List.mem_cons_self (by simp)
      rw [withoutBlanks, List.filter_cons_of_neg (by simp [hb]), withoutBlanks]
  | case2 c cs hc =>
    rw [List.cons_append, takeString_quote hc, List.cons_append, takeString_quote hc]
    exact .before [] [] cs
  | case3 c hq hc =>
    obtain rfl := beq_iff_eq.mp hc
    exact absurd rfl (hr.tail_ne_nil rfl (by decide))
  | case4 c hq hc e cs he =>
    simp only [List.cons_append, takeString_badEscape hq hc he]
    exact .failed _ _
  | case5 c hq hc e cs x he ih =>
    have hfront : ∀ d ∈ [c, e], isBlank d → d = x := by
      obtain rfl := beq_iff_eq.mp hc
      intro d hd hblank
      rcases List.mem_pair.mp hd with rfl | rfl
      · cases hblank
      · rw [escape?_blank hblank] at he
        cases he
    simp only [List.cons_append, takeString_escape hq hc he]
    exact (ih (hr.of_suffix ⟨[c, e], rfl⟩)).cons x hfront
  | case6 c cs hq hc ih =>
    have hfront : ∀ d ∈ [c], isBlank d → d = c := fun d hd _ => List.mem_singleton.mp hd
    simp only [List.cons_append, takeString_plain hq hc]
    exact (ih (hr.of_suffix (List.suffix_cons c cs))).cons c hfront

end

/-! ### Inside a tag -/

/-- What is scanned with and without a blank in the text behind `r`: the lexeme ends before the
blank, or it holds the blank or the gap where it stands. -/
inductive SameLexeme (b : Char) (v : List Char) :
    Except LexFailure Lexeme → Except LexFailure Lexeme → Prop
  | failed (e e' : LexFailure) : SameLexeme b v (.error e) (.error e')
  | before {x x' : Lexeme} (r : List Char) (hkind : x.kind = x'.kind) (hvalue : x.value = x'.value)
    (hrest : x.rest = r ++ b :: v) (hrest' : x'.rest = r ++ v) : SameLexeme b v (.ok x) (.ok x')
  | past {x x' : Lexeme} (hkind : x.kind = x'.kind) (hrest : x.rest = x'.rest)
    (hcontent : List.Forall₂ Worn x.content x'.content) : SameLexeme b v (.ok x) (.ok x')

theorem operator?_closeBrace (h : ¬ ['}'] <+: u) :
    operator? depth ('}' :: u) = some (['}'], .closeCurly) := by
  have hclose : ['}'].isPrefixOf u = false := by
    rw [Bool.eq_false_iff, Ne, List.isPrefixOf_iff_prefix]
    exact h
  simp [operator?, operators, List.isPrefixOf, hclose]

theorem operator?_insert (h : Idle r b v) (hne : r ≠ [])
    (hhead : ∀ c, [c] <+: r → isBlank c = false) :
    operator? depth (r ++ b :: v) = operator? depth (r ++ v) ∧
      ∀ entry, operator? depth (r ++ b :: v) = some entry → entry.1.length ≤ r.length := by
  match r, hne with
  | [c], _ =>
    obtain rfl : c = '}' := by
      rcases h.gap c (List.suffix_refl _) with hblank | hclose
      · rw [hhead c (List.prefix_refl _)] at hblank
        cases hblank
      · exact hclose
    have hv : ¬ ['}'] <+: v := fun hv => by
      rcases h.brace (List.suffix_refl _) (.inl hv) with hend | ⟨hend, -⟩
      · exact absurd hend (by decide)
      · exact absurd hend (by decide)
    have hb : ¬ ['}'] <+: b :: v := fun hv => by
      obtain ⟨rfl, -⟩ := List.cons_prefix_cons.mp hv
      cases h.blank
    simp [operator?_closeBrace hv, operator?_closeBrace hb]
  | c :: d :: r, _ =>
    have hlength : 2 ≤ (c :: d :: r).length := by simp
    rw [operator?_append hlength, operator?_append hlength]
    exact ⟨rfl, fun entry hentry => length_le_of_operator hentry⟩

/-- A blank behind a character that is none stands behind a newline of the same run, or is one. -/
theorem Idle.newline_mem {value : List Char} (h : Idle (c :: r) b v) (hc : isBlank c = false)
    (hb : b ∈ value) (hr : ∀ d ∈ r, isBlank d → d ∈ value) : '\n' ∈ value := by
  rcases h.line with rfl | hall | ⟨l, g, hsplit, -, hg⟩
  · exact hb
  · rw [hall c List.mem_cons_self] at hc
    cases hc
  · have hmem : '\n' ∈ c :: r := hsplit ▸ List.mem_append_right l hg
    rcases List.mem_cons.mp hmem with rfl | hmem
    · cases hc
    · exact hr _ hmem rfl

theorem scanInTag_insert (h : Idle r b v) (hne : r ≠ [])
    (hhead : ∀ c, [c] <+: r → isBlank c = false) :
    SameLexeme b v (scanInTag last depth (r ++ b :: v)) (scanInTag last depth (r ++ v)) := by
  obtain ⟨hop, hlength⟩ : operator? depth (r ++ b :: v) = _ ∧ _ := operator?_insert h hne hhead
  cases r with
  | nil => exact absurd rfl hne
  | cons c r =>
    have hc : isBlank c = false := hhead c (by simp)
    have hgap : Gap r := h.gap.of_suffix (List.suffix_cons c r)
    simp only [List.cons_append] at hop hlength
    simp only [List.cons_append, scanInTag]
    by_cases hsign : (c == '+' || c == '-') && !endsOperand last
    · have hr : r ≠ [] := h.gap.tail_ne_nil hc (by rintro rfl; simp at hsign)
      simp only [if_pos hsign, List.head?_append_of_ne_nil r hr]
      split_ifs with hdigit
      · obtain ⟨digits, r', hdigits⟩ := takeNumber_insert hgap hr
        rw [hdigits, hdigits]
        exact .before r' rfl rfl rfl rfl
      · exact .before r rfl rfl rfl rfl
    simp only [if_neg hsign]
    rw [← hop]
    cases hfound : operator? depth (c :: (r ++ b :: v)) with
    | some entry =>
      have hle := hlength entry hfound
      refine .before ((c :: r).drop entry.1.length) rfl rfl ?_ ?_
      · rw [← List.cons_append, List.drop_append_of_le_length hle]
      · rw [← List.cons_append, List.drop_append_of_le_length hle]
    | none =>
      dsimp only
      split_ifs with hquote hdigit hword
      · have hstring : SameString b r v (takeString c (r ++ b :: v)) (takeString c (r ++ v)) :=
          takeString_insert hc h.blank hgap
        generalize takeString c (r ++ b :: v) = y, takeString c (r ++ v) = y' at hstring
        cases hstring with
        | failed e e' => exact .failed _ _
        | before value body r' => exact .before r' rfl rfl rfl rfl
        | past hsub hblanks hb hr =>
          have hline := h.newline_mem hc hb hr
          exact .past rfl rfl (.cons ⟨rfl, .inr ⟨rfl, hline, hsub, hblanks⟩⟩ .nil)
      · obtain ⟨digits, r', hdigits⟩ := takeNumber_insert h.gap hne
        rw [← List.cons_append, hdigits, ← List.cons_append, hdigits]
        exact .before r' rfl rfl rfl rfl
      · have hstop := h.gap.dropWhile_ne_nil hne (fun c hc => not_isWordChar_of_isBlank hc)
          not_isWordChar_closeBrace
        rw [← List.cons_append, takeRun_of_stop hstop, ← List.cons_append, takeRun_of_stop hstop]
        exact .before _ rfl rfl rfl rfl
      · exact .failed _ _

/-! ### The next lexeme -/

theorem Idle.of_append {l : List Char} (h : Idle (l ++ r) b v)
    (hl : r = ['}'] → Joins v → ¬ ['#'] <:+ l ∧ (['%'] <:+ l → ['{', '%'] <:+ l)) :
    Idle r b v where
  blank := h.blank
  gap := h.gap.of_suffix (List.suffix_append l r)
  brace := by
    rintro ⟨r, rfl⟩ hv
    have hend := h.brace ((List.suffix_append r ['}']).trans (List.suffix_append l _)) hv
    rw [← List.append_assoc] at hend
    have hback : ∀ {q}, [q, '}'] <:+ l ++ r ++ ['}'] → [q] <:+ l ++ r := fun h =>
      (concat_suffix_concat_iff.mp (show [_] ++ ['}'] <:+ _ from h)).1
    rcases List.eq_nil_or_concat' r with rfl | ⟨r, q, rfl⟩
    · obtain ⟨hhash, hpercent⟩ := hl rfl hv
      rw [List.append_nil] at hback hend
      rcases hend with hend | ⟨hend, hopen⟩
      · exact absurd (hback hend) hhash
      · exact absurd (concat_suffix_concat_iff.mpr ⟨hpercent (hback hend), rfl⟩) hopen
    · have hlast : ∀ {p}, [p, '}'] <:+ l ++ (r ++ [q]) ++ ['}'] → [p, '}'] <:+ r ++ [q] ++ ['}'] := by
        intro p hp
        have hq := hback hp
        rw [← List.append_assoc] at hq
        rw [eq_of_suffix_concat hq]
        exact ⟨r, by simp⟩
      refine hend.imp hlast fun ⟨hend, hopen⟩ => ⟨hlast hend, fun h => hopen (h.trans ?_)⟩
      exact ⟨l, by simp⟩
  line := by
    rcases h.line with hb | hall | ⟨l', g, hsplit, hg, hline⟩
    · exact .inl hb
    · exact .inr (.inl fun c hc => hall c (List.mem_append_right l hc))
    · rcases List.append_eq_append_iff.mp hsplit with ⟨a, -, hr⟩ | ⟨a, -, hr⟩
      · exact .inr (.inr ⟨a, g, hr, hg, hline⟩)
      · exact .inr (.inl fun c hc => hg c (hr ▸ List.mem_append_right a hc))

theorem Idle.dropBlanks (h : Idle r b v) : Idle (dropBlanks r) b v := by
  have hsplit := List.takeWhile_append_dropWhile (p := fun c : Char => isBlank c) (l := r)
  refine Idle.of_append (l := r.takeWhile fun c : Char => isBlank c) (hsplit.symm ▸ h) fun _ _ => ?_
  have hend : ∀ c, [c] <:+ r.takeWhile (fun c : Char => isBlank c) → isBlank c := fun c hc =>
    List.mem_takeWhile_imp (p := fun c : Char => isBlank c) (hc.subset (by simp))
  exact ⟨fun hc => (by cases hend _ hc), fun hc => (by cases hend _ hc)⟩

theorem SameLexeme.gap {y y' : Except LexFailure Lexeme} (h : SameLexeme b v y y')
    (gap gap' : List Char) :
    SameLexeme b v (do return { ← afterConsuming gap y with gap })
      (do return { ← afterConsuming gap' y' with gap := gap' }) := by
  cases h with
  | failed e e' => exact .failed _ _
  | before r hkind hvalue hrest hrest' => exact .before r hkind hvalue hrest hrest'
  | past hkind hrest hcontent => exact .past hkind hrest hcontent

theorem SameLexeme.refl (y : Except LexFailure Lexeme) : SameLexeme b v y y := by
  cases y with
  | error e => exact .failed e e
  | ok x => exact .past rfl rfl (List.forall₂_same.mpr fun a _ => Worn.refl a)

theorem scanAfterBlanks_of_blank (h : Layout.dropBlanks u = []) :
    ∃ e, scanAfterBlanks last depth u = .error e := by
  cases hrun : takeRun (fun c : Char => isBlank c) u with
  | error e => exact ⟨e, by rw [scanAfterBlanks, hrun]; rfl⟩
  | ok taken =>
    obtain ⟨front, rest⟩ := taken
    obtain rfl : rest = [] := by
      rw [takeRun, ← Layout.dropBlanks, h] at hrun
      dsimp only at hrun
      split_ifs at hrun
      cases hrun
      rfl
    refine ⟨⟨.endOfInput, front ++ []⟩, ?_⟩
    rw [scanAfterBlanks, hrun]
    rfl

theorem scanAfterBlanks_of_ne_nil (h : Layout.dropBlanks u ≠ []) :
    scanAfterBlanks last depth u = (do
      let gap := u.takeWhile fun c : Char => isBlank c
      return { ← afterConsuming gap (scanInTag last depth (Layout.dropBlanks u)) with gap }) := by
  have hrun := takeRun_of_stop h []
  rw [List.append_nil, List.append_nil] at hrun
  rw [scanAfterBlanks, hrun]
  rfl

theorem scanAfterBlanks_insert (h : Idle r b v) :
    SameLexeme b v (scanAfterBlanks last depth (r ++ b :: v))
      (scanAfterBlanks last depth (r ++ v)) := by
  rcases dropBlanks_append_cases r with hblank | ⟨hne, happend⟩
  · have hinsert : Layout.dropBlanks (r ++ b :: v) = Layout.dropBlanks (r ++ v) := by
      rw [hblank, hblank, dropBlanks_cons_of_blank h.blank]
    by_cases hrest : Layout.dropBlanks (r ++ v) = []
    · have hfails : ∀ {u}, Layout.dropBlanks u = [] → ∃ e, scanAfterBlanks last depth u = .error e :=
        scanAfterBlanks_of_blank
      obtain ⟨e, he⟩ := hfails (hinsert.trans hrest)
      obtain ⟨e', he'⟩ := hfails hrest
      rw [he, he']
      exact .failed e e'
    · rw [scanAfterBlanks_of_ne_nil hrest, scanAfterBlanks_of_ne_nil (by rwa [hinsert]), hinsert]
      exact (SameLexeme.refl _).gap _ _
  · have hne' : ∀ s, Layout.dropBlanks (r ++ s) ≠ [] := fun s => by simp [happend, hne]
    rw [scanAfterBlanks_of_ne_nil (hne' _), scanAfterBlanks_of_ne_nil (hne' _), happend, happend]
    refine (scanInTag_insert h.dropBlanks hne fun c hc => ?_).gap _ _
    obtain ⟨rest, hrest⟩ := hc
    have hhead := List.head?_dropWhile_not (fun c : Char => isBlank c) r
    rw [← Layout.dropBlanks, ← hrest] at hhead
    simpa using hhead

/-- The next lexeme where no literal text comes first. -/
theorem scan_insert_of_no_text (h : Idle r b v) (hne : r = [] → ¬ ['{', '#'] <+: v)
    (htext : ∀ s, s = b :: v ∨ s = v → endsTag last → (splitAtTag (r ++ s)).1 = []) :
    SameLexeme b v (scan last depth (r ++ b :: v)) (scan last depth (r ++ v)) := by
  rw [scan_of_no_text (htext _ (.inl rfl)), scan_of_no_text (htext _ (.inr rfl))]
  have hcomment : ['{', '#'].isPrefixOf (r ++ b :: v) = ['{', '#'].isPrefixOf (r ++ v) := by
    rw [Bool.eq_iff_iff, List.isPrefixOf_iff_prefix, List.isPrefixOf_iff_prefix]
    rcases eq_or_ne r [] with rfl | hr
    · refine iff_of_false (fun hb => ?_) (hne rfl)
      obtain ⟨rfl, -⟩ := List.cons_prefix_cons.mp hb
      cases h.blank
    · have hsolid : ∀ c ∈ ['{', '#'], isBlank c = false := forall_mem_of_all (by decide)
      exact prefix_insert_iff hsolid h.blank hr (h.gap.not_straddles hsolid (by decide))
  rw [hcomment]
  split_ifs with hopen
  · obtain ⟨inner, rfl⟩ : ∃ inner, r = '{' :: '#' :: inner := by
      rw [List.isPrefixOf_iff_prefix] at hopen
      rcases eq_or_ne r [] with rfl | hr
      · exact absurd hopen (hne rfl)
      · rw [prefix_append_iff_of_not_straddles hr
          (h.gap.not_straddles (forall_mem_of_all (by decide)) (by decide))] at hopen
        exact hopen.imp fun _ h => h.symm
    have hgap : Gap inner := h.gap.of_suffix ⟨['{', '#'], rfl⟩
    simp only [List.cons_append, List.drop_succ_cons, List.drop_zero]
    rcases commentBody?_insert h.blank hgap (v := v) with
      ⟨body, r', hbody⟩ | ⟨hbody, hbody'⟩ | ⟨body, body', rest, hbody, hbody'⟩
    · rw [hbody, hbody]
      exact .before r' rfl rfl rfl rfl
    · rw [hbody, hbody']
      exact .failed _ _
    · rw [hbody, hbody']
      exact .past rfl rfl .nil
  · exact scanAfterBlanks_insert h

/-- The next lexeme is the same but for the blank, unless the blank is all there is of a literal
text. -/
theorem scan_insert (h : Idle r b v) (hne : r = [] → endsTag last = false → ¬ ['{', '#'] <+: v) :
    SameLexeme b v (scan last depth (r ++ b :: v)) (scan last depth (r ++ v)) ∨
      r = [] ∧ endsTag last ∧ (splitAtTag v).1 = [] := by
  cases hlast : endsTag last with
  | false =>
    refine .inl (scan_insert_of_no_text h (fun hr => hne hr hlast) fun s _ hs => ?_)
    rw [hlast] at hs
    cases hs
  | true =>
    rcases splitAtTag_insert (v := v) h.blank h.gap with
      ⟨text, r', rfl, hne', hsplit⟩ | ⟨text, rest, hv, hsplit, hsplit'⟩
    · rcases eq_or_ne text [] with rfl | htext
      · exact .inl (scan_insert_of_no_text h (fun hr => absurd hr hne') fun s _ _ => by rw [hsplit])
      · rw [scan_of_text hlast (hsplit _) htext, scan_of_text hlast (hsplit _) htext]
        exact .inl (.before r' rfl rfl rfl rfl)
    · rw [scan_of_text hlast hsplit (by simp)]
      rcases eq_or_ne (r ++ text) [] with hnil | hne'
      · obtain ⟨rfl, rfl⟩ := List.append_eq_nil_iff.mp hnil
        exact .inr ⟨rfl, rfl, by rw [hv]⟩
      · rw [scan_of_text hlast hsplit' hne']
        exact .inl (.past rfl rfl .nil)

end

end ChatTemplate.Lexeme
