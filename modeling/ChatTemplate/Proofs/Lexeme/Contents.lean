import ChatTemplate.Proofs.Lexeme.Insert
import ChatTemplate.Proofs.Lexeme.Numerals

/-!
# What a blank changes for the tokens of a text

The contents of a text are its tokens outside of literal text and comments, up to the end of the text
or the place where the scanner finds no lexeme (`contents`). A blank that is of no account for one
scan is of none for all of them (`contents_insert`): behind a lexeme that ends before the blank, the
blank is of no account again (`Idle.rest`), since no lexeme but the opening of a statement ends with
what a closing brace could follow (`scan_endsWell`).
-/

namespace ChatTemplate.Lexeme
open Text Layout

/-- The contents of the lexemes of a text, up to its end or the place where there is none. -/
def contentsFrom (last : Option TokenKind) (depth : Int) :
    Nat → List Char → List (TokenKind × List Char)
  | 0, _ | _, [] => []
  | n + 1, cs =>
    match scan last depth cs with
    | .error _ => []
    | .ok x => x.content ++ contentsFrom (some x.kind) (x.kind.depthAfter depth) n x.rest

def contents (last : Option TokenKind) (depth : Int) (cs : List Char) :
    List (TokenKind × List Char) :=
  contentsFrom last depth cs.length cs

section
variable {last : Option TokenKind} {depth : Int} {cs : List Char} {n m : Nat} {x : Lexeme}

theorem contentsFrom_of_error {e : LexFailure} (h : scan last depth cs = .error e) (n : Nat) :
    contentsFrom last depth n cs = [] := by
  cases n with
  | zero => rfl
  | succ n =>
    cases cs with
    | nil => rfl
    | cons c cs => simp only [contentsFrom, h]

theorem contentsFrom_of_scan (h : scan last depth cs = .ok x) (n : Nat) :
    contentsFrom last depth (n + 1) cs =
      x.content ++ contentsFrom (some x.kind) (x.kind.depthAfter depth) n x.rest := by
  cases cs with
  | nil =>
    have hlt := (scan_sound h).length_rest_lt
    simp at hlt
  | cons c cs => simp only [contentsFrom, h]

/-- As many lexemes as there are characters are enough. -/
theorem contentsFrom_of_le (hn : cs.length ≤ n) (hm : cs.length ≤ m) :
    contentsFrom last depth n cs = contentsFrom last depth m cs := by
  induction n generalizing last depth cs m with
  | zero =>
    obtain rfl := List.length_eq_zero_iff.mp (Nat.le_zero.mp hn)
    cases m <;> rfl
  | succ n ih =>
    cases hscan : scan last depth cs with
    | error e => rw [contentsFrom_of_error hscan, contentsFrom_of_error hscan]
    | ok x =>
      have hlt := (scan_sound hscan).length_rest_lt
      obtain ⟨m, rfl⟩ : ∃ k, m = k + 1 := Nat.exists_eq_add_one.mpr (by omega)
      rw [contentsFrom_of_scan hscan, contentsFrom_of_scan hscan,
        ih (by omega) (show x.rest.length ≤ m by omega)]

theorem contents_of_error {e : LexFailure} (h : scan last depth cs = .error e) :
    contents last depth cs = [] :=
  contentsFrom_of_error h _

theorem contents_of_scan (h : scan last depth cs = .ok x) : contents last depth cs =
    x.content ++ contents (some x.kind) (x.kind.depthAfter depth) x.rest := by
  have hlt := (scan_sound h).length_rest_lt
  obtain ⟨n, hn⟩ : ∃ n, cs.length = n + 1 := Nat.exists_eq_add_one.mpr (by omega)
  rw [contents, hn, contentsFrom_of_scan h, contents,
    contentsFrom_of_le (show x.rest.length ≤ n by omega) le_rfl]

end

/-! ### What a lexeme ends with -/

/-- The last character of a lexeme is no blank and no hash. It is a percent sign before a closing
brace only where the sign opens a statement, and a closing brace only where the brace is all of the
lexeme or ends a tag. -/
def EndsWell (x : Lexeme) : Prop :=
  ∀ c, [c] <:+ x.text → isBlank c = false ∧ c ≠ '#' ∧
    (c = '%' → ['}'] <+: x.rest → x.text = ['{', '%']) ∧
    (c = '}' → x.text = ['}'] ∨ endsTag (some x.kind))

section
variable {last : Option TokenKind} {depth : Int} {c d : Char} {cs text value rest : List Char}
  {kind : TokenKind} {x : Lexeme}

theorem endsWell_of_plain (h : ∀ c, [c] <:+ text → isBlank c = false ∧ c ≠ '#' ∧ c ≠ '%' ∧ c ≠ '}') :
    EndsWell ⟨[], text, kind, value, rest⟩ := fun c hc =>
  have ⟨hblank, hhash, hpercent, hclose⟩ := h c hc
  ⟨hblank, hhash, fun h => absurd h hpercent, fun h => absurd h hclose⟩

theorem plain_of_isDigit (h : isDigit c) :
    isBlank c = false ∧ c ≠ '#' ∧ c ≠ '%' ∧ c ≠ '}' := by
  refine ⟨?_, ?_, ?_, ?_⟩
  · rw [Bool.eq_false_iff]
    intro hblank
    rw [not_isDigit_of_isBlank hblank] at h
    cases h
  all_goals
    rintro rfl
    cases h

theorem plain_of_isWordChar (h : isWordChar c) :
    isBlank c = false ∧ c ≠ '#' ∧ c ≠ '%' ∧ c ≠ '}' := by
  have hno : isWordChar '#' = false ∧ isWordChar '%' = false ∧ isWordChar '}' = false := by
    decide +kernel
  refine ⟨?_, ?_, ?_, ?_⟩
  · rw [Bool.eq_false_iff]
    intro hblank
    rw [not_isWordChar_of_isBlank hblank] at h
    cases h
  · rintro rfl
    rw [hno.1] at h
    cases h
  · rintro rfl
    rw [hno.2.1] at h
    cases h
  · rintro rfl
    rw [hno.2.2] at h
    cases h

theorem isDigit_last_of_unsigned (h : Unsigned cs) (hc : [c] <:+ cs) : isDigit c := by
  cases h with
  | whole hne hds => exact hds c (hc.subset List.mem_cons_self)
  | @fraction ds fs hne hds hfs hfraction =>
    obtain ⟨l, d, rfl⟩ := (List.eq_nil_or_concat' fs).resolve_left hfs
    obtain rfl : c = d := eq_of_suffix_concat (show [c] <:+ (ds ++ '.' :: l) ++ [d] by simpa using hc)
    exact hfraction c (by simp)

theorem singleton_suffix_cons (h : [c] <:+ d :: cs) (hne : cs ≠ []) : [c] <:+ cs := by
  rcases List.suffix_cons_iff.mp h with heq | hcs
  · exact absurd (List.cons.inj heq).2.symm hne
  · exact hcs

theorem operators_endWell : ∀ entry ∈ operators, ∀ hne : entry.1 ≠ [],
    isBlank (entry.1.getLast hne) = false ∧ entry.1.getLast hne ≠ '#' ∧
      (entry.1.getLast hne = '%' → entry.1 = ['{', '%'] ∨ entry.1 = ['%']) ∧
      (entry.1.getLast hne = '}' → entry.1 = ['}'] ∨ endsTag (some entry.2)) := by
  decide

theorem operator?_percent (h : ['}'] <+: rest) :
    operator? depth ('%' :: rest) = some (['%', '}'], .closeStatement) := by
  obtain ⟨more, rfl⟩ := h
  simp [operator?, operators, List.isPrefixOf]

theorem InTag.endsWell (h : InTag last depth cs x) : EndsWell x := by
  cases h with
  | @signed _ cs digits _ _ hdigit hdigits =>
    have hunsigned : Unsigned digits := by
      cases cs with
      | nil => cases hdigit
      | cons d cs => exact takeNumber_unsigned hdigit hdigits
    have hne : digits ≠ [] := by
      cases hunsigned with
      | whole hne _ => exact hne
      | fraction => simp
    exact endsWell_of_plain fun c hc =>
      plain_of_isDigit (isDigit_last_of_unsigned hunsigned (singleton_suffix_cons hc hne))
  | @unary a _ hsign =>
    refine endsWell_of_plain fun c hc => ?_
    obtain rfl : c = a := eq_of_suffix_concat (show [c] <:+ [] ++ [a] from hc)
    rw [Bool.and_eq_true, Bool.or_eq_true, beq_iff_eq, beq_iff_eq] at hsign
    rcases hsign.1 with rfl | rfl <;> decide
  | @operator _ more op kind _ hop =>
    rintro c ⟨l, hl⟩
    obtain ⟨hfront, hne, -⟩ := operator?_some hop
    have hlast : op.getLast hne = c := by simp [show op = l ++ [c] from hl.symm]
    obtain ⟨hblank, hhash, hpercent, hclose⟩ :=
      hlast ▸ operators_endWell (op, kind) (List.mem_of_find?_eq_some hop) hne
    refine ⟨hblank, hhash, fun hc hrest => (hpercent hc).resolve_right fun htext => ?_, hclose⟩
    obtain rfl : op = ['%'] := htext
    obtain ⟨rfl, -⟩ := List.cons.inj hfront
    have hmore : ['}'] <+: more := by simpa using hrest
    rw [operator?_percent hmore] at hop
    cases hop
  | @string a _ _ _ _ _ _ hquote =>
    refine endsWell_of_plain fun c hc => ?_
    obtain rfl : c = a := eq_of_suffix_concat hc
    rw [Bool.or_eq_true, beq_iff_eq, beq_iff_eq] at hquote
    rcases hquote with rfl | rfl <;> decide
  | number _ _ _ hdigit hdigits =>
    exact endsWell_of_plain fun c hc =>
      plain_of_isDigit (isDigit_last_of_unsigned (takeNumber_unsigned hdigit hdigits) hc)
  | word _ _ _ _ _ hrun =>
    obtain ⟨-, rfl⟩ := takeRun_ok hrun
    exact endsWell_of_plain fun c hc => plain_of_isWordChar
      (List.mem_takeWhile_imp (p := fun c : Char => isWordChar c) (hc.subset List.mem_cons_self))

theorem scan_endsWell (h : scan last depth cs = .ok x) (hkind : x.kind ≠ .text) : EndsWell x := by
  cases Scanned.of_scan h with
  | text => exact absurd rfl hkind
  | @comment body =>
    intro c hc
    obtain rfl : c = '}' :=
      eq_of_suffix_concat (show [c] <:+ ('{' :: '#' :: body ++ ['#']) ++ ['}'] by simpa using hc)
    exact ⟨rfl, by decide, by simp, fun _ => .inr rfl⟩
  | inTag _ _ _ hy => exact hy.endsWell

theorem splitAtTag_rest (cs : List Char) : (splitAtTag cs).2 = [] ∨ ['{'] <+: (splitAtTag cs).2 := by
  induction cs with
  | nil => exact .inl rfl
  | cons c cs ih =>
    rw [splitAtTag]
    split_ifs with h
    · rw [Bool.and_eq_true, beq_iff_eq] at h
      exact .inr (by simp [h.1])
    · exact ih

theorem rest_of_text (h : scan last depth cs = .ok x) (hkind : x.kind = .text) :
    x.rest = [] ∨ ['{'] <+: x.rest := by
  cases Scanned.of_scan h with
  | text => exact splitAtTag_rest cs
  | comment => cases hkind
  | inTag _ _ _ hy =>
    have hno := hy.sound.2.2
    dsimp only at hkind
    rw [hkind] at hno
    exact absurd List.mem_cons_self hno

/-- Before a tag that opens, the scanner does not look at what came before. -/
theorem scan_some_text (h : (splitAtTag cs).1 = []) :
    scan (some .text) depth cs = scan last depth cs := by
  rw [scan_of_no_text (nofun : endsTag (some .text) → _), scan_of_no_text fun _ => h]
  congr 1
  cases cs with
  | nil => rfl
  | cons c cs =>
    obtain rfl : c = '{' := by
      rw [splitAtTag] at h
      split_ifs at h with hopen
      rw [Bool.and_eq_true, beq_iff_eq] at hopen
      exact hopen.1
    have hinner : scanInTag (some .text) depth ('{' :: cs) = scanInTag last depth ('{' :: cs) := rfl
    have hdrop : dropBlanks ('{' :: cs) = '{' :: cs := dropBlanks_cons_of_not_blank rfl cs
    rw [scanAfterBlanks_of_ne_nil (by simp [hdrop]), scanAfterBlanks_of_ne_nil (by simp [hdrop]),
      hdrop, hinner]

theorem contents_some_text (h : (splitAtTag cs).1 = []) :
    contents (some .text) depth cs = contents last depth cs := by
  have hscan : scan (some .text) depth cs = scan last depth cs := scan_some_text h
  cases hx : scan last depth cs with
  | error e => rw [contents_of_error hx, contents_of_error (hscan.trans hx)]
  | ok x => rw [contents_of_scan hx, contents_of_scan (hscan.trans hx)]

end

section
variable {last : Option TokenKind} {depth : Int} {b : Char} {r r' v : List Char} {x : Lexeme}

theorem Idle.rest (h : Idle r b v) (hscan : scan last depth (r ++ b :: v) = .ok x)
    (hrest : x.rest = r' ++ b :: v) : Idle r' b v ∧ r'.length < r.length ∧
      (r' = [] → endsTag (some x.kind) = false → ¬ ['{', '#'] <+: v) := by
  have hsound := scan_sound hscan
  have hsplit : r = x.gap ++ x.text ++ r' := by
    have happend := hsound.eq_append
    rw [hrest, ← List.append_assoc] at happend
    exact List.append_cancel_right happend
  have hlength : r'.length < r.length := by
    have htext := List.length_pos_iff.mpr hsound.text_ne_nil
    rw [hsplit, List.length_append, List.length_append]
    omega
  rw [hsplit] at h
  by_cases hkind : x.kind = .text
  · have hopen : ['{'] <+: r' ++ b :: v := by
      rw [← hrest]
      exact (rest_of_text hscan hkind).resolve_left (by simp [hrest])
    cases r' with
    | nil =>
      obtain ⟨rfl, -⟩ := List.cons_prefix_cons.mp hopen
      cases h.blank
    | cons c r' =>
      obtain ⟨rfl, -⟩ := List.cons_prefix_cons.mp hopen
      exact ⟨h.of_append nofun, hlength, nofun⟩
  · have hends := scan_endsWell hscan hkind
    obtain ⟨t, c, htext⟩ := (List.eq_nil_or_concat' x.text).resolve_left hsound.text_ne_nil
    have hlast : ∀ {q}, [q] <:+ x.gap ++ x.text → [q] <:+ x.text := by
      intro q hq
      rw [htext, ← List.append_assoc] at hq
      rw [htext, eq_of_suffix_concat hq]
      exact List.suffix_append t [c]
    refine ⟨h.of_append fun hr' hv => ⟨fun hq => ?_, fun hq => ?_⟩, hlength, fun hr' hno hv => ?_⟩
    · exact (hends '#' (hlast hq)).2.1 rfl
    · have hopen := (hends '%' (hlast hq)).2.2.1 rfl (by simp [hrest, hr'])
      rw [hopen]
      exact List.suffix_append _ _
    · obtain ⟨hblank, -, -, hclose⟩ := hends c ⟨t, htext.symm⟩
      rw [hr', List.append_nil] at h
      have hgap := h.gap c (htext ▸ ⟨x.gap ++ t, by simp⟩)
      have hbrace := hclose (hgap.resolve_left (by simp [hblank]))
      have htext := hbrace.resolve_right (by simp [hno])
      rw [htext] at h
      have hback : ∀ {q}, [q, '}'] <:+ x.gap ++ ['}'] → isBlank q := fun {q} hq =>
        hsound.blank_of_mem_gap q ((concat_suffix_concat_iff.mp
          (show [q] ++ ['}'] <:+ x.gap ++ ['}'] from hq)).1.subset List.mem_cons_self)
      rcases h.brace (List.suffix_append x.gap ['}']) (.inr hv) with hend | ⟨hend, -⟩
      · cases hback hend
      · cases hback hend

/-- A blank that is of no account. -/
theorem contents_insert (h : Idle r b v)
    (hne : r = [] → endsTag last = false → ¬ ['{', '#'] <+: v) :
    List.Forall₂ Worn (contents last depth (r ++ b :: v)) (contents last depth (r ++ v)) := by
  induction hn : r.length using Nat.strong_induction_on generalizing r last depth with
  | _ n ih =>
    subst hn
    rcases scan_insert (v := v) h hne with hscan | ⟨rfl, hlast, hv⟩
    · generalize hy : scan last depth (r ++ b :: v) = y, hy' : scan last depth (r ++ v) = y' at hscan
      cases hscan with
      | failed e e' =>
        rw [contents_of_error hy, contents_of_error hy']
        exact .nil
      | @before x x' r' hkind hvalue hrest hrest' =>
        obtain ⟨hidle, hlt, hne'⟩ := h.rest hy hrest
        have hcontent : x.content = x'.content := by rw [content, content, hkind, hvalue]
        rw [contents_of_scan hy, contents_of_scan hy', hrest, hrest', ← hkind, hcontent]
        exact List.rel_append (List.forall₂_same.mpr fun a _ => Worn.refl a)
          (ih r'.length hlt hidle hne' rfl)
      | @past x x' hkind hrest hcontent =>
        rw [contents_of_scan hy, contents_of_scan hy', ← hrest, ← hkind]
        exact List.rel_append hcontent (List.forall₂_same.mpr fun a _ => Worn.refl a)
    · have hopen : ¬ (b == '{' && opensTag v) := by
        rw [Bool.and_eq_true, beq_iff_eq]
        rintro ⟨rfl, -⟩
        cases h.blank
      have hrest : (splitAtTag v).2 = v := by
        simpa [hv] using splitAtTag_append v
      have hsplit : splitAtTag (b :: v) = ([b], v) := by
        rw [splitAtTag, if_neg hopen]
        simp only [hv, hrest]
      rw [List.nil_append, List.nil_append,
        contents_of_scan (scan_of_text hlast hsplit (by simp)), contents_some_text hv]
      exact List.forall₂_same.mpr fun a _ => Worn.refl a

end

end ChatTemplate.Lexeme
