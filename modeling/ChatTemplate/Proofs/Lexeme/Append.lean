import ChatTemplate.Proofs.Layout.Local
import ChatTemplate.Proofs.Lexeme.Lossless
import Mathlib.Data.List.Find

/-!
# Scanning a text with more behind it

No scanner looks farther than two characters behind the lexeme it takes, and behind the end of a tag
or a comment it looks at nothing. So where enough is left, or the lexeme ends a tag, the same lexeme
is taken off a text with more behind it (`Lexeme.scan_append`). Behind the end of a tag a text is
scanned as from its start (`Lexeme.scan_of_endsTag`); all that is left of what came before are the
open curly brackets (`tokensFrom_append`) and the place (`tokensFrom_after`).
-/

namespace ChatTemplate
namespace Lexeme
open Text

variable {last : Option TokenKind} {depth : Int} {cs front rest : List Char} {x : Lexeme}

/-! ### Literal text and comments -/

theorem opensTag_append (h : cs ≠ []) (more : List Char) : opensTag (cs ++ more) = opensTag cs := by
  cases cs with
  | nil => exact absurd rfl h
  | cons c cs => rfl

theorem splitAtTag_behind (h : (splitAtTag cs).2 ≠ []) (more : List Char) :
    splitAtTag (cs ++ more) = ((splitAtTag cs).1, (splitAtTag cs).2 ++ more) := by
  induction cs with
  | nil => exact absurd rfl h
  | cons c cs ih =>
    rw [splitAtTag] at h
    rw [List.cons_append, splitAtTag, splitAtTag]
    rcases eq_or_ne cs [] with rfl | hcs
    · split_ifs at h with htag
      · simp [opensTag] at htag
      · exact absurd rfl h
    rw [opensTag_append hcs]
    split_ifs at h ⊢ with htag
    · rfl
    · rw [ih h]

theorem commentBody?_append {body : List Char} (h : commentBody? cs = some (body, rest))
    (more : List Char) : commentBody? (cs ++ more) = some (body, rest ++ more) := by
  induction cs generalizing body with
  | nil => cases h
  | cons c cs ih =>
    have hhead : (cs ++ more).head? = cs.head? := by
      cases cs with
      | nil => simp [commentBody?] at h
      | cons d cs => rfl
    rw [commentBody?] at h
    rw [List.cons_append, commentBody?, hhead]
    split_ifs at h ⊢ with hend
    · rw [Bool.and_eq_true, beq_iff_eq, beq_iff_eq] at hend
      obtain ⟨ds, rfl⟩ := List.head?_eq_some_iff.mp hend.2
      cases h
      rfl
    · rw [Option.map_eq_some_iff] at h
      obtain ⟨⟨body', rest'⟩, hbody, h⟩ := h
      cases h
      rw [ih hbody]
      rfl

/-! ### Runs, numbers and strings -/

theorem takeRun_append {p : Char → Bool} (h : takeRun p cs = .ok (front, rest)) (hrest : rest ≠ [])
    (more : List Char) : takeRun p (cs ++ more) = .ok (front, rest ++ more) := by
  rw [takeRun] at h
  split at h
  · split_ifs at h
    cases h
    exact absurd rfl hrest
  · rename_i c ds hdrop
    cases h
    have hsplit : cs = cs.takeWhile p ++ c :: ds := by
      rw [← hdrop, List.takeWhile_append_dropWhile]
    have hfront : ∀ d ∈ cs.takeWhile p, p d := fun d hd => List.mem_takeWhile_imp hd
    have hc : ¬ p c := by
      intro hc
      have hhead := List.head?_dropWhile_not p cs
      rw [hdrop] at hhead
      simp [hc] at hhead
    generalize cs.takeWhile p = front at hsplit hfront ⊢
    rw [hsplit, List.append_assoc, takeRun, List.dropWhile_append_of_pos hfront,
      List.takeWhile_append_of_pos hfront, List.cons_append, List.dropWhile_cons_of_neg hc,
      List.takeWhile_cons_of_neg hc, List.append_nil]

theorem takeNumber_of_fraction {whole ds : List Char} {d : Char}
    (hwhole : takeRun (isDigit ·) cs = .ok (whole, '.' :: d :: ds)) (hd : isDigit d) :
    takeNumber cs = (do
      let (fraction, rest) ← afterConsuming (whole ++ ['.']) (takeRun (isDigit ·) (d :: ds))
      return (whole ++ '.' :: fraction, rest)) := by
  rw [takeNumber, hwhole]
  exact if_pos hd

theorem takeNumber_of_whole (hwhole : takeRun (isDigit ·) cs = .ok (front, rest))
    (h : ∀ d ds, rest = '.' :: d :: ds → ¬ isDigit d) : takeNumber cs = .ok (front, rest) := by
  rw [takeNumber, hwhole]
  dsimp only [Bind.bind, Except.bind]
  split
  · exact if_neg (h _ _ rfl)
  · rfl

theorem takeNumber_append (h : takeNumber cs = .ok (front, rest)) (hrest : 2 ≤ rest.length)
    (more : List Char) : takeNumber (cs ++ more) = .ok (front, rest ++ more) := by
  have hne : rest ≠ [] := by
    rintro rfl
    simp at hrest
  obtain ⟨⟨whole, ds⟩, hwhole, -⟩ := bind_eq_ok.mp h
  by_cases hdot : ∃ d fs, ds = '.' :: d :: fs ∧ isDigit d
  · obtain ⟨d, fs, rfl, hd⟩ := hdot
    rw [takeNumber_of_fraction hwhole hd, bind_eq_ok] at h
    obtain ⟨⟨fraction, rest⟩, hfraction, h⟩ := h
    cases h
    have hwhole' : takeRun (isDigit ·) (cs ++ more) = .ok (whole, '.' :: d :: (fs ++ more)) :=
      takeRun_append hwhole (by simp) more
    have hfraction' := takeRun_append (afterConsuming_eq_ok.mp hfraction) hne more
    rw [List.cons_append] at hfraction'
    rw [takeNumber_of_fraction hwhole' hd, hfraction']
    rfl
  · rw [takeNumber_of_whole hwhole fun d fs hds hd => hdot ⟨d, fs, hds, hd⟩] at h
    cases h
    refine takeNumber_of_whole (takeRun_append hwhole hne more) fun d fs hds hd => ?_
    match rest, hrest with
    | c :: e :: rest, _ =>
      obtain ⟨rfl, htail⟩ := List.cons.inj hds
      obtain ⟨rfl, -⟩ := List.cons.inj htail
      exact hdot ⟨_, _, rfl, hd⟩

theorem takeString_append {quote : Char} {value body : List Char}
    (h : takeString quote cs = .ok (value, body, rest)) (more : List Char) :
    takeString quote (cs ++ more) = .ok (value, body, rest ++ more) := by
  fun_induction takeString quote cs generalizing value body with
  | case1 => cases h
  | case2 c cs hc =>
    cases h
    exact takeString_quote hc _
  | case3 => cases h
  | case4 => cases h
  | case5 c hq hb e cs v he ih =>
    rw [bind_eq_ok] at h
    obtain ⟨⟨value, body, rest⟩, hbody, h⟩ := h
    cases h
    rw [List.cons_append, List.cons_append, takeString_escape hq hb he,
      ih (afterConsuming_eq_ok.mp hbody)]
    rfl
  | case6 c cs hq hb ih =>
    rw [bind_eq_ok] at h
    obtain ⟨⟨value, body, rest⟩, hbody, h⟩ := h
    cases h
    rw [List.cons_append, takeString_plain hq hb, ih (afterConsuming_eq_ok.mp hbody)]
    rfl

/-! ### Operators -/

theorem length_operator_le : ∀ entry ∈ operators, entry.1.length ≤ 2 := by
  decide

theorem operator?_append (h : 2 ≤ cs.length) (more : List Char) :
    operator? depth (cs ++ more) = operator? depth cs := by
  refine List.find?_congr fun entry hentry => ?_
  have hop := Layout.isPrefixOf_append_of_le ((length_operator_le entry hentry).trans h) more
  exact congrArg (· && !(entry.2 == .closeExpression && decide (0 < depth))) hop

/-! ### Inside a tag -/

/-- Is enough left behind the lexeme, or does it end a tag? -/
def Settled (x : Lexeme) : Prop := 2 ≤ x.rest.length ∨ endsTag (some x.kind)

theorem length_of_endsTag : ∀ entry ∈ operators, endsTag (some entry.2) → entry.1.length = 2 := by
  decide

theorem length_le_of_operator {entry : List Char × TokenKind}
    (h : operator? depth cs = some entry) : entry.1.length ≤ cs.length := by
  rw [(operator?_some h).1, List.length_append]
  exact Nat.le_add_right _ _

theorem InTag.two_le (h : InTag last depth cs x) (hx : endsTag (some x.kind)) :
    2 ≤ x.text.length := by
  cases h with
  | operator _ hop => exact (length_of_endsTag _ (List.mem_of_find?_eq_some hop) hx).ge
  | signed | unary | string | number | word => cases hx

theorem InTag.two_le_of_settled (h : InTag last depth cs x) (hx : Settled x) : 2 ≤ cs.length := by
  rw [h.sound.1.eq_append, List.length_append, List.length_append]
  rcases hx with hrest | hends
  · omega
  · have htext := h.two_le hends
    omega

theorem InTag.append (h : InTag last depth cs x) (hx : Settled x) (more : List Char) :
    InTag last depth (cs ++ more) { x with rest := x.rest ++ more } := by
  have hlength := h.two_le_of_settled hx
  have hop : operator? depth (cs ++ more) = operator? depth cs := operator?_append hlength more
  have hhead : ∀ {c ds}, cs = c :: ds → (ds ++ more).head? = ds.head? := by
    rintro c ds rfl
    refine List.head?_append_of_ne_nil ds ?_
    rintro rfl
    simp at hlength
  cases h with
  | signed hsign hdigit hdigits =>
    rw [List.cons_append]
    exact .signed hsign (by rwa [hhead rfl])
      (takeNumber_append hdigits (hx.resolve_right nofun) more)
  | unary hsign hdigit =>
    rw [List.cons_append]
    exact .unary hsign (by rwa [hhead rfl])
  | operator hsign hfound =>
    rw [← List.drop_append_of_le_length (length_le_of_operator hfound)]
    exact .operator hsign (hop.trans hfound)
  | string hsign hnone hquote hbody =>
    exact .string hsign (hop.trans hnone) hquote (takeString_append hbody more)
  | number hsign hnone hquote hdigit hdigits =>
    exact .number hsign (hop.trans hnone) hquote hdigit
      (takeNumber_append hdigits (hx.resolve_right nofun) more)
  | word hsign hnone hquote hdigit hword hrun =>
    refine .word hsign (hop.trans hnone) hquote hdigit hword (takeRun_append hrun ?_ more)
    rintro rfl
    exact absurd hx (by simp [Settled, endsTag])

/-! ### The next lexeme -/

theorem two_le_of_scan (h : scan last depth cs = .ok x) (hx : endsTag (some x.kind)) :
    2 ≤ x.text.length := by
  cases Scanned.of_scan h with
  | text => cases hx
  | comment => simp
  | inTag _ _ _ hy => exact hy.two_le hx

/-- The same lexeme is taken off a text with more behind it. -/
theorem scan_append (h : scan last depth cs = .ok x) (hx : Settled x) (more : List Char) :
    scan last depth (cs ++ more) = .ok { x with rest := x.rest ++ more } := by
  have hlength : 2 ≤ cs.length := by
    rw [(scan_sound h).eq_append, List.length_append, List.length_append]
    rcases hx with hrest | hends
    · omega
    · have htext := two_le_of_scan h hends
      omega
  have hcomment : ['{', '#'].isPrefixOf (cs ++ more) = ['{', '#'].isPrefixOf cs :=
    Layout.isPrefixOf_append_of_le (by simpa using hlength) more
  have hdrop : (cs ++ more).drop 2 = cs.drop 2 ++ more := List.drop_append_of_le_length hlength
  -- Literal text goes on where nothing is left behind it; then the text had been all literal.
  have hnone (h : endsTag last → (splitAtTag cs).1 = []) :
      endsTag last → (splitAtTag (cs ++ more)).1 = [] := fun hlast => by
    have hsplit := splitAtTag_append cs
    rw [h hlast, List.nil_append] at hsplit
    have hrest : (splitAtTag cs).2 ≠ [] := by
      rw [hsplit]
      rintro rfl
      simp at hlength
    rw [splitAtTag_behind hrest, h hlast]
  cases Scanned.of_scan h with
  | text hlast hne =>
    have hrest : (splitAtTag cs).2 ≠ [] := fun hnil => absurd hx (by simp [Settled, endsTag, hnil])
    exact scan_of_text hlast (splitAtTag_behind hrest more) hne
  | comment hempty hopen hbody =>
    exact (Scanned.comment (hnone hempty) (by rwa [hcomment])
      (by rw [hdrop, commentBody?_append hbody])).scan
  | inTag hempty hopen hgap hy =>
    have hrest := hy.two_le_of_settled hx
    exact (Scanned.inTag (hnone hempty) (by rwa [hcomment])
      (takeRun_append hgap (by rintro rfl; simp at hrest) more) (hy.append hx more)).scan

/-- Behind the end of a tag a text is scanned as from its start. -/
theorem scan_of_endsTag {kind : TokenKind} (h : endsTag (some kind)) :
    scan (some kind) depth cs = scan none depth cs := by
  cases kind with
  | closeStatement | closeExpression | comment => rfl
  | _ => cases h

end Lexeme

/-! ### Places -/

namespace Pos
variable {base p : Pos}

/-- The place `p` of a text that stands at `base`. -/
def shift (base p : Pos) : Pos :=
  ⟨base.line + (p.line - 1), if p.line = 1 then base.column + (p.column - 1) else p.column⟩

theorem shift_next (hline : 1 ≤ p.line) (hcolumn : 1 ≤ p.column) (c : Char) :
    base.shift (p.next c) = (base.shift p).next c := by
  by_cases hc : c = '\n'
  · have hne : p.line + 1 ≠ 1 := by omega
    rw [next, next, if_pos hc, if_pos hc, shift, shift, if_neg hne, mk.injEq]
    exact ⟨by dsimp only; omega, rfl⟩
  · rw [next, next, if_neg hc, if_neg hc, shift, shift]
    split_ifs
    · rw [mk.injEq]
      exact ⟨rfl, by dsimp only; omega⟩
    · rfl

theorem one_le_behind (front : List Char) :
    1 ≤ (behind front).line ∧ 1 ≤ (behind front).column :=
  ⟨Nat.le_add_right 1 _, Nat.le_add_right 1 _⟩

theorem shift_behind (base : Pos) (cs : List Char) : base.shift (behind cs) = base.after cs := by
  induction cs using List.reverseRecOn with
  | nil => rfl
  | append_singleton cs c ih =>
    obtain ⟨hline, hcolumn⟩ := one_le_behind cs
    rw [behind_concat, after_append, ← ih]
    exact shift_next hline hcolumn c

theorem behind_after (front cs : List Char) : (behind front).after cs = behind (front ++ cs) := by
  rw [← start_after, ← start_after, after_append]

end Pos

def Token.shift (base : Pos) (t : Token) : Token := { t with pos := base.shift t.pos }

def LexFault.shift (base : Pos) (e : LexFault) : LexFault := { e with pos := base.shift e.pos }

/-- The outcome of scanning a text, where the text stands at `base`. -/
def shifted (base : Pos) : Except LexFault (List Token) → Except LexFault (List Token)
  | .ok ts => .ok (ts.map (Token.shift base))
  | .error e => .error (e.shift base)

/-! ### The loop -/

/-- The number of open curly brackets behind the tokens. -/
def depthBehind (depth : Int) (ts : List Token) : Int :=
  ts.foldl (fun depth t => t.kind.depthAfter depth) depth

theorem depthBehind_append (depth : Int) (ts us : List Token) :
    depthBehind depth (ts ++ us) = depthBehind (depthBehind depth ts) us :=
  List.foldl_append

section
variable {last : Option TokenKind} {depth : Int} {pos : Pos} {cs : List Char} {x : Lexeme}
  {t : Token} {before rest ts : List Token} {n m : Nat}

def Lexeme.token (x : Lexeme) (pos : Pos) : Token :=
  ⟨x.kind, String.ofList x.value, pos.after x.gap⟩

theorem Lexeme.token_after (x : Lexeme) (base : Pos) (front : List Char) :
    x.token (base.after front) = (x.token (Pos.behind front)).shift base := by
  rw [token, token, Token.shift, ← Pos.after_append, Pos.behind_after, Pos.shift_behind]

theorem tokensFrom_of_scan (h : Lexeme.scan last depth cs = .ok x) :
    tokensFrom last depth pos (n + 1) cs = (x.token pos :: ·) <$> tokensFrom (some x.kind)
      (x.kind.depthAfter depth) (pos.after (x.gap ++ x.text)) n x.rest := by
  have hcs : cs ≠ [] := by
    rw [(Lexeme.scan_sound h).eq_append]
    simp [(Lexeme.scan_sound h).text_ne_nil]
  rw [tokensFrom.eq_3 _ _ _ _ _ hcs, h, Pos.after_append]
  rfl

theorem Lexeme.Sound.length_rest_lt (h : Lexeme.Sound last cs x) : x.rest.length < cs.length := by
  have htext := List.length_pos_iff.mpr h.text_ne_nil
  rw [h.eq_append, List.length_append, List.length_append]
  omega

/-- As many lexemes as there are characters are enough. -/
theorem tokensFrom_of_le (hn : cs.length ≤ n) (hm : cs.length ≤ m) :
    tokensFrom last depth pos n cs = tokensFrom last depth pos m cs := by
  induction n generalizing last depth pos cs m with
  | zero =>
    obtain rfl := List.length_eq_zero_iff.mp (Nat.le_zero.mp hn)
    cases m <;> rfl
  | succ n ih =>
    rcases eq_or_ne cs [] with rfl | hcs
    · cases m <;> rfl
    obtain ⟨m, rfl⟩ : ∃ k, m = k + 1 :=
      Nat.exists_eq_add_one.mpr ((List.length_pos_iff.mpr hcs).trans_le hm)
    cases hscan : Lexeme.scan last depth cs with
    | error e => rw [tokensFrom.eq_3 _ _ _ _ _ hcs, tokensFrom.eq_3 _ _ _ _ _ hcs, hscan]
    | ok x =>
      have hlt := (Lexeme.scan_sound hscan).length_rest_lt
      rw [tokensFrom_of_scan hscan, tokensFrom_of_scan hscan, ih (m := m) (by omega) (by omega)]

/-- A text that stands elsewhere has the same tokens elsewhere. -/
theorem tokensFrom_after (base : Pos) (front : List Char) :
    tokensFrom last depth (base.after front) n cs =
      shifted base (tokensFrom last depth (Pos.behind front) n cs) := by
  induction n generalizing last depth front cs with
  | zero => simp [tokensFrom, shifted, Token.shift, Pos.shift_behind]
  | succ n ih =>
    rcases eq_or_ne cs [] with rfl | hcs
    · simp [tokensFrom, shifted, Token.shift, Pos.shift_behind]
    cases hscan : Lexeme.scan last depth cs with
    | error e =>
      rw [tokensFrom.eq_3 _ _ _ _ _ hcs, tokensFrom.eq_3 _ _ _ _ _ hcs, hscan]
      dsimp only [shifted, LexFault.shift]
      rw [← Pos.after_append, Pos.behind_after, Pos.shift_behind]
    | ok x =>
      rw [tokensFrom_of_scan hscan, tokensFrom_of_scan hscan, ← Pos.after_append, Pos.behind_after,
        ih, x.token_after]
      cases tokensFrom _ _ _ n x.rest <;> rfl

theorem tokensFrom_of_endsTag {kind : TokenKind} (h : Lexeme.endsTag (some kind)) :
    tokensFrom (some kind) depth pos n cs = tokensFrom none depth pos n cs := by
  cases n with
  | zero => rfl
  | succ n =>
    rcases eq_or_ne cs [] with rfl | hcs
    · rfl
    · rw [tokensFrom.eq_3 _ _ _ _ _ hcs, tokensFrom.eq_3 _ _ _ _ _ hcs, Lexeme.scan_of_endsTag h]

/-- The first token, unless it is the end mark, is that of the next lexeme. -/
theorem exists_scan_of_tokensFrom (h : tokensFrom last depth pos n cs = .ok (t :: rest))
    (hne : t :: rest ≠ [⟨.eof, "", pos⟩]) :
    ∃ k x, n = k + 1 ∧ Lexeme.scan last depth cs = .ok x ∧ t = x.token pos ∧
      tokensFrom (some x.kind) (x.kind.depthAfter depth) (pos.after (x.gap ++ x.text)) k x.rest =
        .ok rest := by
  cases n with
  | zero =>
    cases h
    exact absurd rfl hne
  | succ k =>
    rcases eq_or_ne cs [] with rfl | hcs
    · cases h
      exact absurd rfl hne
    cases hscan : Lexeme.scan last depth cs with
    | error e =>
      rw [tokensFrom.eq_3 _ _ _ _ _ hcs, hscan] at h
      cases h
    | ok x =>
      rw [tokensFrom_of_scan hscan] at h
      cases hmore : tokensFrom (some x.kind) (x.kind.depthAfter depth)
          (pos.after (x.gap ++ x.text)) k x.rest with
      | error e =>
        rw [hmore] at h
        cases h
      | ok us =>
        rw [hmore] at h
        cases h
        exact ⟨k, x, rfl, rfl, rfl, hmore⟩

/-- Only the end mark is taken where nothing is left. -/
theorem eq_nil_of_tokensFrom (hn : cs.length ≤ n) (h : tokensFrom last depth pos n cs = .ok [t]) :
    cs = [] := by
  obtain ⟨ps, hcut, heq⟩ := tokensFrom_cut hn h
  cases hcut with
  | eof => rfl
  | @cons _ _ p rest ps _ _ _ _ hrest =>
    have hps : t = p.token ∧ ps = [] := by simpa using heq
    rw [hps.2] at hrest
    cases hrest

/-- What is scanned behind some of the tokens. -/
theorem exists_tokensFrom_behind (hn : cs.length ≤ n) (ht : t.kind ≠ .eof)
    (h : tokensFrom last depth pos n cs = .ok (before ++ t :: rest)) :
    ∃ front more, cs = front ++ more ∧ tokensFrom (some t.kind) (depthBehind depth (before ++ [t]))
      (pos.after front) more.length more = .ok rest := by
  induction before generalizing last depth pos cs n with
  | nil =>
    obtain ⟨k, x, rfl, hscan, rfl, hrest⟩ := exists_scan_of_tokensFrom h fun heq => by
      obtain ⟨rfl, -⟩ := List.cons.inj heq
      exact ht rfl
    have hx := Lexeme.scan_sound hscan
    have hlt := hx.length_rest_lt
    refine ⟨x.gap ++ x.text, x.rest, hx.eq_append, ?_⟩
    rw [← hrest]
    exact tokensFrom_of_le le_rfl (by omega)
  | cons u before ih =>
    obtain ⟨k, x, rfl, hscan, rfl, hrest⟩ := exists_scan_of_tokensFrom h (by simp)
    have hx := Lexeme.scan_sound hscan
    have hlt := hx.length_rest_lt
    obtain ⟨front, more, heq, hmore⟩ := ih (by omega) hrest
    refine ⟨x.gap ++ x.text ++ front, more, ?_, ?_⟩
    · rw [List.append_assoc, ← heq]
      exact hx.eq_append
    · rw [Pos.after_append]
      exact hmore

theorem tokensFrom_append_of_scan (h : Lexeme.scan last depth cs = .ok x) (hx : x.Settled)
    (more : List Char) (hm : (cs ++ more).length ≤ m) :
    ∃ k, (x.rest ++ more).length ≤ k ∧ tokensFrom last depth pos m (cs ++ more) =
      (x.token pos :: ·) <$> tokensFrom (some x.kind) (x.kind.depthAfter depth)
        (pos.after (x.gap ++ x.text)) k (x.rest ++ more) := by
  have hlt := (Lexeme.scan_sound h).length_rest_lt
  rw [List.length_append] at hm
  obtain ⟨k, rfl⟩ := Nat.exists_eq_add_one.mpr (show 0 < m by omega)
  refine ⟨k, ?_, tokensFrom_of_scan (Lexeme.scan_append h hx more)⟩
  rw [List.length_append]
  omega

/-- The tokens of a text whose last one ends a tag stay where more comes behind the text, and what
is known of it behind them is how many curly brackets are open. -/
theorem tokensFrom_append {e : Token} (hn : cs.length ≤ n) (ht : Lexeme.endsTag (some t.kind))
    (h : tokensFrom last depth pos n cs = .ok (before ++ [t, e])) :
    2 ≤ cs.length ∧ ∀ more m, (cs ++ more).length ≤ m →
      tokensFrom last depth pos m (cs ++ more) = (before ++ t :: ·) <$>
        tokensFrom none (depthBehind depth (before ++ [t])) (pos.after cs) more.length more := by
  induction before generalizing last depth pos cs n with
  | nil =>
    obtain ⟨k, x, rfl, hscan, rfl, hrest⟩ := exists_scan_of_tokensFrom h (by simp)
    have hx := Lexeme.scan_sound hscan
    have hlt := hx.length_rest_lt
    have htext := Lexeme.two_le_of_scan hscan ht
    have hnil := eq_nil_of_tokensFrom (by omega) hrest
    have hcs := hx.eq_append
    rw [hnil, List.append_nil] at hcs
    refine ⟨by rw [hcs, List.length_append]; omega, fun more m hm => ?_⟩
    obtain ⟨k, hk, hstep⟩ := tokensFrom_append_of_scan hscan (.inr ht) more hm
    rw [hnil, List.nil_append] at hk hstep
    have hends : Lexeme.endsTag (some x.kind) := ht
    rw [hstep, ← hcs, tokensFrom_of_endsTag hends, tokensFrom_of_le hk le_rfl]
    rfl
  | cons u before ih =>
    obtain ⟨k, x, rfl, hscan, rfl, hrest⟩ := exists_scan_of_tokensFrom h (by simp)
    have hx := Lexeme.scan_sound hscan
    have hlt := hx.length_rest_lt
    obtain ⟨hlength, hmore⟩ := ih (by omega) hrest
    refine ⟨by omega, fun more m hm => ?_⟩
    obtain ⟨k, hk, hstep⟩ := tokensFrom_append_of_scan hscan (.inl hlength) more hm
    have hcs : pos.after cs = (pos.after (x.gap ++ x.text)).after x.rest := by
      rw [← Pos.after_append, ← hx.eq_append]
    rw [hstep, hmore more k hk, hcs, ← comp_map]
    rfl

end

end ChatTemplate
