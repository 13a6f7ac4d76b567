import ChatTemplate.Lexeme
import Mathlib.Data.List.Infix
import Mathlib.Data.List.TakeWhile

/-!
# What one scan takes

`Lexeme.scan_sound`: a lexeme that `scan` takes off a text is a front of the text after blanks, is
never empty and spells its value in the way of its class (`Lexeme.Spells`). There is no blank before
literal text or a comment, and literal text holds no opening of a tag. Each scanner has its own
lemma, which says how the text splits and what the front is. `Lexeme.Scanned` and `Lexeme.InTag`
have a rule for each way that a scan succeeds, and what holds of all lexemes goes by their cases.
-/

namespace ChatTemplate.Lexeme
open Text

/-- The ways a tag opens. -/
def tagOpenings : List (List Char) := [['{', '%'], ['{', '{'], ['{', '#']]

/-- A string body as written, and the text that its escapes decode to. -/
inductive Escaped (quote : Char) : List Char → List Char → Prop
  | nil : Escaped quote [] []
  | plain {c : Char} {body value : List Char} (hq : c ≠ quote) (hb : c ≠ '\\')
      (h : Escaped quote body value) : Escaped quote (c :: body) (c :: value)
  | escape {e v : Char} {body value : List Char} (he : escape? e = some v)
      (h : Escaped quote body value) : Escaped quote ('\\' :: e :: body) (v :: value)

/-- The characters `lexeme` of a class are how `value` is written. -/
def Spells : TokenKind → List Char → List Char → Prop
  | .comment, lexeme, value =>
    lexeme = '{' :: '#' :: value ++ ['#', '}'] ∧ ¬ ['#', '}'] <:+: value
  | .string, lexeme, value =>
    ∃ quote ∈ ['"', '\''], ∃ body, lexeme = quote :: body ++ [quote] ∧ Escaped quote body value
  | _, lexeme, value => lexeme = value

/-- What holds of a lexeme taken off `cs` after a token of the class `last`. -/
structure Sound (last : Option TokenKind) (cs : List Char) (x : Lexeme) : Prop where
  eq_append : cs = x.gap ++ x.text ++ x.rest
  text_ne_nil : x.text ≠ []
  kind_ne_eof : x.kind ≠ .eof
  blank_of_mem_gap : ∀ c ∈ x.gap, isBlank c
  gap_eq_nil : x.kind = .text ∨ x.kind = .comment → x.gap = []
  spells : Spells x.kind x.text x.value
  endsTag_of_text : x.kind = .text → endsTag last
  untagged_of_text : x.kind = .text → ∀ tag ∈ tagOpenings, ¬ tag <:+: x.text

variable {α : Type} {last : Option TokenKind} {depth : Int} {cs front rest : List Char}

@[simp] theorem afterConsuming_eq_ok {e : Except LexFailure α} {x : α} :
    afterConsuming front e = .ok x ↔ e = .ok x := by
  cases e <;> simp [afterConsuming]

theorem bind_eq_ok {ε β : Type} {e : Except ε α} {f : α → Except ε β} {y : β} :
    (e >>= f) = .ok y ↔ ∃ x, e = .ok x ∧ f x = .ok y := by
  cases e <;> simp [Bind.bind, Except.bind]

/-! ### Literal text -/

theorem splitAtTag_append (cs : List Char) : (splitAtTag cs).1 ++ (splitAtTag cs).2 = cs := by
  induction cs with
  | nil => rfl
  | cons c cs ih =>
    rw [splitAtTag]
    split_ifs
    · rfl
    · simp [ih]

theorem opensTag_iff {c : Char} : opensTag (c :: cs) ↔ ['{', c] ∈ tagOpenings := by
  simp [opensTag, tagOpenings, or_assoc]

theorem splitAtTag_untagged (cs : List Char) :
    ∀ tag ∈ tagOpenings, ¬ tag <:+: (splitAtTag cs).1 := by
  intro tag htag
  obtain ⟨d, rfl⟩ : ∃ d, tag = ['{', d] := by
    simp only [tagOpenings, List.mem_cons, List.not_mem_nil, or_false] at htag
    rcases htag with rfl | rfl | rfl <;> exact ⟨_, rfl⟩
  induction cs with
  | nil => simp [splitAtTag]
  | cons c cs ih =>
    rw [splitAtTag]
    split_ifs with h
    · simp
    · show ¬ ['{', d] <:+: c :: (splitAtTag cs).1
      rw [List.infix_cons_iff, List.cons_prefix_cons]
      rintro (⟨rfl, more, hmore⟩ | hin)
      · have hcs := splitAtTag_append cs
        rw [← hmore] at hcs
        rw [← hcs] at h
        refine h ?_
        rw [Bool.and_eq_true, List.cons_append, List.cons_append, opensTag_iff]
        exact ⟨rfl, htag⟩
      · exact ih hin

/-! ### Comments -/

theorem commentBody?_some {body : List Char} (h : commentBody? cs = some (body, rest)) :
    cs = body ++ '#' :: '}' :: rest ∧ ¬ ['#', '}'] <:+: body := by
  induction cs generalizing body with
  | nil => simp [commentBody?] at h
  | cons c cs ih =>
    rw [commentBody?] at h
    split_ifs at h with hend
    · rw [Bool.and_eq_true, beq_iff_eq, beq_iff_eq] at hend
      obtain ⟨rfl, hhead⟩ := hend
      obtain ⟨more, rfl⟩ := List.head?_eq_some_iff.mp hhead
      simp only [List.tail_cons, Option.some.injEq, Prod.mk.injEq] at h
      obtain ⟨rfl, rfl⟩ := h
      simp
    · simp only [Option.map_eq_some_iff, Prod.mk.injEq, Prod.exists] at h
      obtain ⟨body, rest, hbody, rfl, rfl⟩ := h
      obtain ⟨rfl, hin⟩ := ih hbody
      refine ⟨rfl, ?_⟩
      rw [List.infix_cons_iff, List.cons_prefix_cons]
      rintro (⟨rfl, more, rfl⟩ | h)
      · exact hend (by simp)
      · exact hin h

/-! ### Runs, numbers and strings -/

theorem takeRun_ok {p : Char → Bool} (h : takeRun p cs = .ok (front, rest)) :
    cs = front ++ rest ∧ front = cs.takeWhile p := by
  rw [takeRun] at h
  split at h
  · split_ifs at h with hcs
    cases h
    simp [List.isEmpty_iff.mp hcs]
  · rename_i c more hdrop
    cases h
    exact ⟨by rw [← hdrop, List.takeWhile_append_dropWhile], rfl⟩

theorem takeNumber_ok (h : takeNumber cs = .ok (front, rest)) :
    cs = front ++ rest ∧ cs.takeWhile (fun c : Char => isDigit c) <+: front := by
  rw [takeNumber, bind_eq_ok] at h
  obtain ⟨⟨whole, more⟩, hwhole, h⟩ := h
  obtain ⟨rfl, hdigits⟩ := takeRun_ok hwhole
  rw [← hdigits]
  dsimp only at h
  split at h
  · rename_i d more
    split_ifs at h
    · rw [bind_eq_ok] at h
      obtain ⟨⟨fraction, more⟩, hfraction, h⟩ := h
      rw [afterConsuming_eq_ok] at hfraction
      obtain ⟨hmore, -⟩ := takeRun_ok hfraction
      cases h
      exact ⟨by rw [hmore]; simp, List.prefix_append ..⟩
    · cases h
      exact ⟨rfl, List.prefix_rfl⟩
  · cases h
    exact ⟨rfl, List.prefix_rfl⟩

section
variable {quote c e x : Char}

theorem takeString_quote (hq : c == quote) (cs : List Char) :
    takeString quote (c :: cs) = .ok ([], [], cs) := by
  rw [takeString.eq_def]
  exact if_pos hq

theorem takeString_escape (hq : ¬ c == quote) (hc : c == '\\') (he : escape? e = some x) :
    takeString quote (c :: e :: cs) = (do
      let (value, body, rest) ← afterConsuming [c, e] (takeString quote cs)
      return (x :: value, c :: e :: body, rest)) := by
  rw [takeString.eq_def]
  dsimp only
  rw [if_neg hq, if_pos hc, he]

theorem takeString_badEscape (hq : ¬ c == quote) (hc : c == '\\') (he : escape? e = none) :
    takeString quote (c :: e :: cs) = .error ⟨.badEscape e, [c, e]⟩ := by
  rw [takeString.eq_def]
  dsimp only
  rw [if_neg hq, if_pos hc, he]

theorem takeString_plain (hq : ¬ c == quote) (hc : ¬ c == '\\') :
    takeString quote (c :: cs) = (do
      let (value, body, rest) ← afterConsuming [c] (takeString quote cs)
      return (c :: value, c :: body, rest)) := by
  rw [takeString.eq_def]
  dsimp only
  rw [if_neg hq, if_neg hc]

end

theorem takeString_ok {quote : Char} {value body : List Char}
    (h : takeString quote cs = .ok (value, body, rest)) :
    cs = body ++ quote :: rest ∧ Escaped quote body value := by
  fun_induction takeString quote cs generalizing value body with
  | case1 => cases h
  | case2 c cs hc =>
    cases h
    exact ⟨by rw [beq_iff_eq.mp hc]; rfl, .nil⟩
  | case3 => cases h
  | case4 => cases h
  | case5 c hq hb e cs v he ih =>
    rw [bind_eq_ok] at h
    obtain ⟨⟨value, body, rest⟩, hbody, h⟩ := h
    cases h
    obtain ⟨rfl, hescaped⟩ := ih (afterConsuming_eq_ok.mp hbody)
    rw [beq_iff_eq.mp hb]
    exact ⟨rfl, .escape he hescaped⟩
  | case6 c cs hq hb ih =>
    rw [bind_eq_ok] at h
    obtain ⟨⟨value, body, rest⟩, hbody, h⟩ := h
    cases h
    obtain ⟨rfl, hescaped⟩ := ih (afterConsuming_eq_ok.mp hbody)
    exact ⟨rfl, .plain (by simpa using hq) (by simpa using hb) hescaped⟩

/-! ### Operators -/

theorem operators_spec : ∀ entry ∈ operators, entry.1 ≠ [] ∧
    entry.2 ∉ [TokenKind.text, .comment, .string, .eof] := by
  decide

theorem operator?_some {op : List Char} {kind : TokenKind}
    (h : operator? depth cs = some (op, kind)) :
    cs = op ++ cs.drop op.length ∧ op ≠ [] ∧
      kind ∉ [TokenKind.text, .comment, .string, .eof] := by
  have hop := List.find?_some h
  rw [Bool.and_eq_true, List.isPrefixOf_iff_prefix] at hop
  refine ⟨?_, operators_spec _ (List.mem_of_find?_eq_some h)⟩
  exact (List.prefix_iff_eq_append.mp hop.1).symm

/-! ### Inside a tag -/

/-- The lexemes inside a tag: a rule for each way that `scanInTag` succeeds, under what keeps the
ways before it from being taken. -/
inductive InTag (last : Option TokenKind) (depth : Int) : List Char → Lexeme → Prop
  | signed {c : Char} {cs digits rest : List Char}
      (hsign : (c == '+' || c == '-') && !endsOperand last) (hdigit : cs.head?.any (isDigit ·))
      (hdigits : takeNumber cs = .ok (digits, rest)) :
      InTag last depth (c :: cs) ⟨[], c :: digits, .number, c :: digits, rest⟩
  | unary {c : Char} {cs : List Char}
      (hsign : (c == '+' || c == '-') && !endsOperand last)
      (hdigit : ¬ cs.head?.any (isDigit ·)) :
      InTag last depth (c :: cs) ⟨[], [c], .unary, [c], cs⟩
  | operator {c : Char} {cs op : List Char} {kind : TokenKind}
      (hsign : ¬ ((c == '+' || c == '-') && !endsOperand last))
      (hop : operator? depth (c :: cs) = some (op, kind)) :
      InTag last depth (c :: cs) ⟨[], op, kind, op, (c :: cs).drop op.length⟩
  | string {c : Char} {cs value body rest : List Char}
      (hsign : ¬ ((c == '+' || c == '-') && !endsOperand last))
      (hop : operator? depth (c :: cs) = none) (hquote : c == '"' || c == '\'')
      (hbody : takeString c cs = .ok (value, body, rest)) :
      InTag last depth (c :: cs) ⟨[], c :: body ++ [c], .string, value, rest⟩
  | number {c : Char} {cs digits rest : List Char}
      (hsign : ¬ ((c == '+' || c == '-') && !endsOperand last))
      (hop : operator? depth (c :: cs) = none) (hquote : ¬ (c == '"' || c == '\''))
      (hdigit : isDigit c) (hdigits : takeNumber (c :: cs) = .ok (digits, rest)) :
      InTag last depth (c :: cs) ⟨[], digits, .number, digits, rest⟩
  | word {c : Char} {cs word rest : List Char}
      (hsign : ¬ ((c == '+' || c == '-') && !endsOperand last))
      (hop : operator? depth (c :: cs) = none) (hquote : ¬ (c == '"' || c == '\''))
      (hdigit : ¬ isDigit c) (hword : isWordChar c)
      (hrun : takeRun (isWordChar ·) (c :: cs) = .ok (word, rest)) :
      InTag last depth (c :: cs) ⟨[], word, .name, word, rest⟩

theorem InTag.of_scanInTag {x : Lexeme} (h : scanInTag last depth cs = .ok x) :
    InTag last depth cs x := by
  unfold scanInTag at h
  split at h
  · cases h
  rename_i c rest
  by_cases hsign : (c == '+' || c == '-') && !endsOperand last
  · rw [if_pos hsign] at h
    split_ifs at h with hdigit
    · obtain ⟨digits, hdigits, h⟩ := bind_eq_ok.mp h
      cases h
      exact .signed hsign hdigit (afterConsuming_eq_ok.mp hdigits)
    · cases h
      exact .unary hsign hdigit
  rw [if_neg hsign] at h
  cases hop : operator? depth (c :: rest) with
  | some entry =>
    rw [hop] at h
    cases h
    exact .operator hsign hop
  | none =>
    simp only [hop] at h
    split_ifs at h with hquote hdigit hword
    · obtain ⟨string, hbody, h⟩ := bind_eq_ok.mp h
      cases h
      exact .string hsign hop hquote (afterConsuming_eq_ok.mp hbody)
    · obtain ⟨digits, hdigits, h⟩ := bind_eq_ok.mp h
      cases h
      exact .number hsign hop hquote hdigit hdigits
    · obtain ⟨word, hrun, h⟩ := bind_eq_ok.mp h
      cases h
      exact .word hsign hop hquote hdigit hword hrun

theorem InTag.scanInTag {x : Lexeme} (h : InTag last depth cs x) :
    scanInTag last depth cs = .ok x := by
  cases h with
  | signed hsign hdigit hdigits =>
    rw [Lexeme.scanInTag, if_pos hsign, if_pos hdigit, hdigits]
    rfl
  | unary hsign hdigit => rw [Lexeme.scanInTag, if_pos hsign, if_neg hdigit]
  | operator hsign hop => simp only [Lexeme.scanInTag, if_neg hsign, hop]
  | string hsign hop hquote hbody =>
    simp only [Lexeme.scanInTag, if_neg hsign, hop, if_pos hquote, hbody]
    rfl
  | number hsign hop hquote hdigit hdigits =>
    simp only [Lexeme.scanInTag, if_neg hsign, hop, if_neg hquote, if_pos hdigit, hdigits]
    rfl
  | word hsign hop hquote hdigit hword hrun =>
    simp only [Lexeme.scanInTag, if_neg hsign, hop, if_neg hquote, if_neg hdigit, if_pos hword, hrun]
    rfl

theorem Spells.refl {kind : TokenKind} (hc : kind ≠ .comment) (hs : kind ≠ .string)
    (lexeme : List Char) : Spells kind lexeme lexeme := by
  cases kind <;> first | rfl | contradiction

/-- A lexeme inside a tag that is its own value. -/
theorem Sound.plain {text : List Char} {kind : TokenKind} (hcs : cs = text ++ rest)
    (hne : text ≠ []) (hkind : kind ∉ [TokenKind.text, .comment, .string, .eof]) :
    Sound last cs ⟨[], text, kind, text, rest⟩ := by
  simp only [List.mem_cons, List.not_mem_nil, or_false, not_or] at hkind
  obtain ⟨ht, hc, hs, he⟩ := hkind
  exact { eq_append := hcs, text_ne_nil := hne, kind_ne_eof := he
          blank_of_mem_gap := by simp, gap_eq_nil := fun _ => rfl
          spells := .refl hc hs text
          endsTag_of_text := fun h => absurd h ht
          untagged_of_text := fun h => absurd h ht }

/-- A lexeme inside a tag is sound, it has no gap, and it is neither literal text nor a comment. -/
theorem InTag.sound {x : Lexeme} (h : InTag last depth cs x) :
    Sound last cs x ∧ x.gap = [] ∧ x.kind ∉ [TokenKind.text, .comment] := by
  cases h with
  | signed _ _ hdigits =>
    obtain ⟨rfl, -⟩ := takeNumber_ok hdigits
    exact ⟨.plain rfl (by simp) (by decide), rfl, by simp⟩
  | unary => exact ⟨.plain rfl (by simp) (by decide), rfl, by simp⟩
  | operator _ hop =>
    obtain ⟨hcs, hne, hkind⟩ := operator?_some hop
    exact ⟨.plain hcs hne hkind, rfl, by simp at hkind ⊢; tauto⟩
  | @string c _ _ body _ _ _ hquote hbody =>
    obtain ⟨rfl, hescaped⟩ := takeString_ok hbody
    have hc : c ∈ ['"', '\''] := by simpa using hquote
    refine ⟨?_, rfl, by simp⟩
    exact { eq_append := by simp, text_ne_nil := by simp, kind_ne_eof := by simp
            blank_of_mem_gap := by simp, gap_eq_nil := fun _ => rfl
            spells := ⟨c, hc, body, rfl, hescaped⟩
            endsTag_of_text := by simp, untagged_of_text := by simp }
  | @number _ _ digits _ _ _ _ hdigit hdigits =>
    obtain ⟨hcs, hprefix⟩ := takeNumber_ok hdigits
    have hne : digits ≠ [] := by
      rintro rfl
      simp [hdigit] at hprefix
    exact ⟨.plain hcs hne (by decide), rfl, by simp⟩
  | word _ _ _ _ hword hrun =>
    obtain ⟨hcs, rfl⟩ := takeRun_ok hrun
    exact ⟨.plain hcs (by simp [hword]) (by decide), rfl, by simp⟩

/-! ### The next lexeme -/

/-- What `scan` takes: the literal text before the next tag, else a comment, else a lexeme inside a
tag with the blanks before it. -/
inductive Scanned (last : Option TokenKind) (depth : Int) (cs : List Char) : Lexeme → Prop
  | text (hlast : endsTag last) (hne : (splitAtTag cs).1 ≠ []) :
      Scanned last depth cs
        ⟨[], (splitAtTag cs).1, .text, (splitAtTag cs).1, (splitAtTag cs).2⟩
  | comment {body rest : List Char} (hnone : endsTag last → (splitAtTag cs).1 = [])
      (hopen : ['{', '#'].isPrefixOf cs) (hbody : commentBody? (cs.drop 2) = some (body, rest)) :
      Scanned last depth cs ⟨[], '{' :: '#' :: body ++ ['#', '}'], .comment, body, rest⟩
  | inTag {gap more : List Char} {x : Lexeme} (hnone : endsTag last → (splitAtTag cs).1 = [])
      (hopen : ¬ ['{', '#'].isPrefixOf cs) (hgap : takeRun (isBlank ·) cs = .ok (gap, more))
      (hx : InTag last depth more x) : Scanned last depth cs { x with gap }

theorem scan_of_text {text : List Char} (h : endsTag last) (hsplit : splitAtTag cs = (text, rest))
    (hne : text ≠ []) : scan last depth cs = .ok ⟨[], text, .text, text, rest⟩ := by
  rw [scan, if_pos h, hsplit]
  exact if_pos (by simpa using hne)

theorem scan_of_no_text (h : endsTag last → (splitAtTag cs).1 = []) : scan last depth cs =
    if ['{', '#'].isPrefixOf cs then
      match commentBody? (cs.drop 2) with
      | some (body, rest) => .ok ⟨[], '{' :: '#' :: body ++ ['#', '}'], .comment, body, rest⟩
      | none => .error ⟨.unclosedComment, []⟩
    else scanAfterBlanks last depth cs := by
  have hliteral : (if endsTag last then splitAtTag cs else ([], cs)).1 = [] := by
    split_ifs with hlast
    · exact h hlast
    · rfl
  rw [scan]
  generalize (if endsTag last then splitAtTag cs else ([], cs)) = literal at hliteral
  obtain ⟨text, rest⟩ := literal
  obtain rfl : text = [] := hliteral
  exact if_neg (by simp)

theorem Scanned.of_scan {x : Lexeme} (h : scan last depth cs = .ok x) : Scanned last depth cs x := by
  by_cases htext : endsTag last ∧ (splitAtTag cs).1 ≠ []
  · rw [scan_of_text htext.1 rfl htext.2] at h
    cases h
    exact .text htext.1 htext.2
  have hnone : endsTag last → (splitAtTag cs).1 = [] := by simpa using htext
  rw [scan_of_no_text hnone] at h
  split_ifs at h with hopen
  · split at h
    · rename_i hbody
      cases h
      exact .comment hnone hopen hbody
    · cases h
  · obtain ⟨⟨gap, more⟩, hgap, h⟩ := bind_eq_ok.mp h
    obtain ⟨y, hy, h⟩ := bind_eq_ok.mp h
    cases h
    exact .inTag hnone hopen hgap (.of_scanInTag (afterConsuming_eq_ok.mp hy))

theorem Scanned.scan {x : Lexeme} (h : Scanned last depth cs x) : scan last depth cs = .ok x := by
  cases h with
  | text hlast hne => exact scan_of_text hlast rfl hne
  | comment hnone hopen hbody => rw [scan_of_no_text hnone, if_pos hopen, hbody]
  | inTag hnone hopen hgap hx =>
    rw [scan_of_no_text hnone, if_neg hopen, scanAfterBlanks, hgap]
    change (do let lexeme ← afterConsuming _ (scanInTag last depth _); _) = _
    rw [hx.scanInTag]
    rfl

/-- What `scan` takes: nothing of the text is lost, and the lexeme spells its value. -/
theorem scan_sound {x : Lexeme} (h : scan last depth cs = .ok x) : Sound last cs x := by
  cases Scanned.of_scan h with
  | text hlast hne =>
    exact { eq_append := (splitAtTag_append cs).symm, text_ne_nil := hne, kind_ne_eof := by simp
            blank_of_mem_gap := by simp, gap_eq_nil := fun _ => rfl
            spells := rfl
            endsTag_of_text := fun _ => hlast
            untagged_of_text := fun _ => splitAtTag_untagged cs }
  | comment _ hopen hbody =>
    obtain ⟨hdrop, hend⟩ := commentBody?_some hbody
    obtain ⟨more, rfl⟩ := List.isPrefixOf_iff_prefix.mp hopen
    exact { eq_append := by simpa using hdrop, text_ne_nil := by simp, kind_ne_eof := by simp
            blank_of_mem_gap := by simp, gap_eq_nil := fun _ => rfl
            spells := ⟨rfl, hend⟩
            endsTag_of_text := by simp, untagged_of_text := by simp }
  | @inTag gap more x _ _ hgap hx =>
    obtain ⟨hsound, hnil, hkind⟩ := hx.sound
    obtain ⟨rfl, htake⟩ := takeRun_ok hgap
    have hmore := hsound.eq_append
    rw [hnil, List.nil_append] at hmore
    exact { hsound with
      eq_append := by rw [hmore, List.append_assoc]
      blank_of_mem_gap := by
        show ∀ c ∈ gap, isBlank (Codepoint.ofChar c)
        rw [htake]
        exact fun c hc => List.mem_takeWhile_imp (p := fun c : Char => isBlank c) hc
      gap_eq_nil := by
        rintro (hx | hx) <;> exact absurd hx (by simp at hkind; tauto) }

end ChatTemplate.Lexeme
