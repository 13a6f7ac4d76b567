import ChatTemplate.Proofs.Grammar.Levels

/-!
# Printed programs are read back

`Program.ofTokens_print`: a well-formed program, printed in any style and followed by the end mark,
is read as itself. Statements nest only in blocks, which are read with a smaller bound
(`ReadsStmts stmt n`); a block ends where one of its closing words stands in a statement mark,
and no printed statement begins with one of those.
-/

namespace ChatTemplate.Grammar
open Reader

variable {n m i : Nat} {s : Style} {stmt : Reader Stmt} {st : Stmt} {ts us rest : List Token}
  {ends : List String} {word : String}

/-- The reader takes every printed statement. -/
def ReadsStmts (stmt : Reader Stmt) (n : Nat) : Prop :=
  ∀ (s : Style) (st : Stmt), st.wellFormed → Reads stmt n (fun _ => True) (st.print s) st

/-! ### Statement marks -/

/-- The words that end a block. -/
def enders : List String :=
  ["elif", "else", "endif", "endset", "endfor", "endmacro", "endcall", "endfilter"]

/-- Do the tokens begin with a statement mark and one of the words? -/
def beginsWith (words : List String) (ts : List Token) : Bool :=
  (next ts).kind == .openStatement && (next ts.tail).kind == .name &&
    words.contains (next ts.tail).value

theorem checkStatement_eq {b : Bool} (h : beginsWith ends ts = b) :
    checkStatement ends ts = .ok (b, ts) := by
  rw [← h]
  rfl

theorem tag_append (word : String) (ts us : List Token) : tag word ts ++ us =
    mark .openStatement :: keyword word :: (ts ++ mark .closeStatement :: us) := by
  simp [tag]

theorem checkStatement_tag : checkStatement ends (tag word ts ++ us) =
    .ok (ends.contains word, tag word ts ++ us) := rfl

theorem closeStatement_mark : closeStatement (mark .closeStatement :: rest) =
    .ok (mark .closeStatement, rest) :=
  expect_mark

theorem endStatement_tag : endStatement word (tag word [] ++ rest) = .ok ((), rest) := by
  rw [tag_append, endStatement, openMark, bind_eq expect_mark, bind_eq expectWord_eq,
    List.nil_append, closeMark, bind_eq expect_mark]
  rfl

theorem contains_eq_false (hends : ends ⊆ enders) (hword : word ∉ enders) :
    ends.contains word = false := by
  rw [← Bool.not_eq_true, List.contains_iff_mem]
  exact fun hmem => hword (hends hmem)

theorem print_beginsWith {st : Stmt} (h : st.wellFormed) (s : Style) (hends : ends ⊆ enders)
    (us : List Token) : beginsWith ends (st.print s ++ us) = false := by
  cases st with
  | comment w | text w | output e => rfl
  | choice t body alternate => exact contains_eq_false hends (show "if" ∉ enders by decide)
  | loop t e body default => exact contains_eq_false hends (show "for" ∉ enders by decide)
  | assign t v | capture t body => exact contains_eq_false hends (show "set" ∉ enders by decide)
  | defineMacro w params body => exact contains_eq_false hends (show "macro" ∉ enders by decide)
  | callBlock w args params body => exact contains_eq_false hends (show "call" ∉ enders by decide)
  | filterBlock f body => exact contains_eq_false hends (show "filter" ∉ enders by decide)
  | control signal w =>
    have hw : w.text = signal.word := by simpa [Stmt.wellFormed] using h
    have hword : w.text ∉ enders := by
      rw [hw]
      cases signal <;> decide
    exact contains_eq_false hends hword

theorem print_ne_nil (s : Style) (st : Stmt) : st.print s ≠ [] := by
  cases st <;> exact List.cons_ne_nil _ _

/-! ### Blocks -/

theorem block_printList (h : ReadsStmts stmt n) (hends : ends ⊆ enders) {ss : List Stmt}
    (hss : Stmt.allWellFormed ss) (hrest : beginsWith ends rest)
    (hlength : (Stmt.printList s i ss ++ rest).length ≤ m) (hm : m ≤ n) :
    block stmt ends m (Stmt.printList s i ss ++ rest) = .ok (ss, rest) := by
  induction ss generalizing i m with
  | nil =>
    show block stmt ends m rest = _
    cases m <;> rw [block, bind_eq (checkStatement_eq hrest)] <;> rfl
  | cons st ss ih =>
    simp only [Stmt.allWellFormed, Bool.and_eq_true] at hss
    obtain ⟨hst, hss⟩ := hss
    rw [Stmt.printList, List.append_assoc] at hlength ⊢
    have hlater := hlength
    have hpos := List.length_pos_iff.mpr (print_ne_nil (s.child i) st)
    rw [List.length_append] at hlater
    cases m with
    | zero => omega
    | succ m =>
      rw [block, bind_eq (checkStatement_eq (print_beginsWith hst _ hends _)), if_neg (by simp),
        bind_eq (h (s.child i) st hst _ trivial (Nat.le_trans hlength hm)),
        bind_eq (ih hss (by omega) (by omega))]
      rfl

/-! ### Conditions -/

/-- A condition behind its first word, without its end. -/
def branch (s : Style) (t : Expr) (body alternate : List Stmt) : List Token :=
  t.print (s.child 0) .condition ++ mark .closeStatement ::
    (Stmt.printList (s.child 1) 0 body ++ Stmt.printAlternate (s.child 2) alternate)

/-- The three ways to print an alternate. -/
theorem printAlternate_cases (s : Style) (alternate : List Stmt) :
    alternate = [] ∧ Stmt.printAlternate s alternate = [] ∨
    (∃ t body rest, alternate = [.choice t body rest] ∧ Stmt.printAlternate s alternate =
      mark .openStatement :: keyword "elif" :: branch s t body rest) ∨
    Stmt.printAlternate s alternate = tag "else" [] ++ Stmt.printList s 0 alternate := by
  match alternate with
  | [] => exact .inl ⟨rfl, rfl⟩
  | [.choice t body rest] =>
    rw [Stmt.printAlternate]
    split_ifs
    · exact .inr (.inl ⟨t, body, rest, rfl, by simp [branch, tag]⟩)
    · exact .inr (.inr (by simp [Stmt.printList, Stmt.print]))
  | st :: st' :: stmts => cases st <;> exact .inr (.inr rfl)
  | [.comment _] | [.text _] | [.output _] | [.loop ..] | [.assign ..] | [.capture ..] =>
    exact .inr (.inr rfl)
  | [.defineMacro ..] | [.callBlock ..] | [.filterBlock ..] | [.control ..] =>
    exact .inr (.inr rfl)

theorem choice_branch (h : ReadsStmts stmt n) {t : Expr} {body alternate : List Stmt}
    (ht : t.wellFormed) (hbody : Stmt.allWellFormed body) (halt : Stmt.allWellFormed alternate)
    (hlength : (branch s t body alternate ++ (tag "endif" [] ++ rest)).length ≤ m) (hm : m ≤ n) :
    choice stmt m (branch s t body alternate ++ (tag "endif" [] ++ rest)) =
      .ok (.choice t body alternate, tag "endif" [] ++ rest) := by
  induction m generalizing s t body alternate with
  | zero => simp [branch] at hlength
  | succ m ih =>
    have hsplit : branch s t body alternate ++ (tag "endif" [] ++ rest) =
        t.print (s.child 0) .condition ++ mark .closeStatement ::
          (Stmt.printList (s.child 1) 0 body ++ (Stmt.printAlternate (s.child 2) alternate ++
            (tag "endif" [] ++ rest))) := by
      simp [branch]
    rw [hsplit] at hlength ⊢
    have hlater := hlength
    simp only [List.length_append, List.length_cons] at hlater
    have htest := (exprWithin_reads (m + 1)).print (s.child 0) ht _
      (stops_mark (by decide) _ _) hlength
    have hends : beginsWith ["elif", "else", "endif"] (Stmt.printAlternate (s.child 2) alternate ++
        (tag "endif" [] ++ rest)) := by
      rcases printAlternate_cases (s.child 2) alternate with ⟨-, heq⟩ | ⟨_, _, _, -, heq⟩ | heq <;>
        rw [heq] <;> rfl
    have hblock := block_printList h (s := s.child 1) (i := 0) (by decide) hbody hends (m := m)
      (by simp only [List.length_append]; omega) (by omega)
    rw [choice, bind_eq htest, bind_eq closeStatement_mark, bind_eq hblock]
    rcases printAlternate_cases (s.child 2) alternate with
      ⟨rfl, heq⟩ | ⟨t', body', alternate', rfl, heq⟩ | heq
    · rw [heq, List.nil_append, bind_eq checkStatement_tag, if_neg (by decide),
        bind_eq checkStatement_tag, if_neg (by decide)]
      rfl
    · rw [heq] at hlater ⊢
      simp only [Stmt.allWellFormed, Stmt.wellFormed, Bool.and_eq_true, and_true] at halt
      rw [List.length_cons, List.length_cons] at hlater
      have hchoice := ih (s := s.child 2) halt.1 halt.2.1 halt.2.2
        (by simp only [List.length_append]; omega) (by omega)
      rw [List.cons_append, List.cons_append, bind_eq (checkStatement_eq (b := true) rfl), if_pos rfl,
        advance_bind, advance_bind, List.tail_cons, List.tail_cons, bind_eq hchoice]
      rfl
    · rw [heq] at hlater ⊢
      have hend : beginsWith ["endif"] (tag "endif" [] ++ rest) := rfl
      have hblock := block_printList h (s := s.child 2) (i := 0) (m := m) (by decide) halt hend
        (by simp only [List.length_append] at hlater ⊢; omega) (by omega)
      rw [List.append_assoc, bind_eq checkStatement_tag, if_neg (by decide),
        bind_eq checkStatement_tag, if_pos (by decide), tag_append, advance_bind, advance_bind,
        List.tail_cons, List.tail_cons, List.nil_append, bind_eq closeStatement_mark,
        bind_eq hblock]
      rfl

/-! ### Loops -/

/-- A name by itself or in parentheses is read by the rule of primary expressions. -/
theorem primary_wrap_name {w : Word} (hw : isPlainName w.text) (k : Nat) :
    Reads (primary n (exprWithin n)) n (Stops .primary) (wrap k [leaf .name w]) (.name w) := by
  cases k with
  | zero => exact fun us _ _ => primary_name hw
  | succ k =>
    have hparens := chains_parens (exprWithin_reads n) (e := .name w) hw .plain k
    exact hparens.reads.mono (Nat.le_succ n) fun _ h => h

theorem primary_bodies : (items : List Expr) → (items.all fun
      | .name w => isPlainName w.text
      | _ => false) → (s : Style) → (i : Nat) →
    List.Forall₂ (Reads (primary n (exprWithin n)) n (Stops .primary)) (Expr.bodies s i items) items
  | [], _, _, _ => .nil
  | .name w :: items, h, s, i => by
    simp only [List.all_cons, Bool.and_eq_true] at h
    exact .cons (primary_wrap_name h.1 _) (primary_bodies items h.2 s (i + 1))

theorem allWellFormed_of_names : (items : List Expr) → (items.all fun
      | .name w => isPlainName w.text
      | _ => false) → Expr.allWellFormed items
  | [], _ => rfl
  | .name w :: items, h => by
    simp only [List.all_cons, Bool.and_eq_true] at h
    simp only [Expr.allWellFormed, Expr.wellFormed, Bool.and_eq_true]
    exact ⟨h.1, allWellFormed_of_names items h.2⟩

theorem Target.toExpr_wellFormed {t : Target} (ht : t.wellFormed) : t.toExpr.wellFormed := by
  cases t with
  | name w => exact ht
  | tuple items =>
    simp only [Target.wellFormed, Bool.and_eq_true] at ht
    simp only [Target.toExpr, Expr.wellFormed, Bool.and_eq_true]
    exact ⟨ht.1, allWellFormed_of_names items ht.2⟩

theorem sequence_of_primary {e : Expr}
    (h : primary n (exprWithin n) ts = .ok (e, keyword word :: us)) :
    sequence n (primary n (exprWithin n)) ts = .ok (e, keyword word :: us) := by
  rw [sequence, bind_eq h, check_bind]
  rfl

theorem sequence_target {t : Target} (ht : t.wellFormed)
    (hlength : (t.print s ++ keyword word :: rest).length ≤ n) :
    sequence n (primary n (exprWithin n)) (t.print s ++ keyword word :: rest) =
      .ok (t.toExpr, keyword word :: rest) := by
  have hprint : t.print s = wrap (s.parens []) (t.toExpr.body s) := by
    have hle : Level.sequence ≤ t.toExpr.level := Nat.zero_le _
    rw [Target.print, Expr.print, Style.enclose, if_pos hle, Nat.add_zero]
  rw [hprint] at hlength ⊢
  have hstops : Stops .primary (keyword word :: rest) := stops_primary rfl rest
  cases hk : s.parens [] with
  | succ k =>
    rw [hk] at hlength
    exact sequence_of_primary ((chains_parens (exprWithin_reads n) (Target.toExpr_wellFormed ht) s
      k).reads _ hstops (Nat.le_succ_of_le hlength))
  | zero =>
    rw [hk] at hlength
    cases t with
    | name w => exact sequence_of_primary (primary_name ht)
    | tuple items =>
      simp only [Target.wellFormed, Bool.and_eq_true, decide_eq_true_eq] at ht
      refine sequence_separated (primary_bodies items ht.2 s 0) ht.1 (fun us hus => ?_) hstops
        (by simp [keyword]) hlength
      exact (stops_of_comma hus).mono (by decide)

theorem Target.toExpr_target? (t : Target) : t.toExpr.target? = some t := by
  cases t <;> rfl

/-- The two ways to print what is done for a loop that makes no pass. -/
theorem printDefault_cases (s : Style) (default : List Stmt) :
    default = [] ∧ Stmt.printDefault s default = [] ∨
    Stmt.printDefault s default = tag "else" [] ++ Stmt.printList s 0 default := by
  cases default with
  | nil => exact .inl ⟨rfl, rfl⟩
  | cons st stmts => exact .inr rfl

theorem exprWithin_close {e : Expr} (he : e.wellFormed) {kind : TokenKind} (hkind : kind ∈ closers)
    (hlength : (e.print s .condition ++ mark kind :: rest).length ≤ n) :
    exprWithin n (e.print s .condition ++ mark kind :: rest) = .ok (e, mark kind :: rest) :=
  (exprWithin_reads n).print s he _ (stops_mark hkind _ _) hlength

theorem loop_print (h : ReadsStmts stmt n) {t : Target} {e : Expr} {body default : List Stmt}
    (ht : t.wellFormed) (he : e.wellFormed) (hbody : Stmt.allWellFormed body)
    (hdefault : Stmt.allWellFormed default) {s₁ s₂ s₃ : Style}
    (hus : us = Stmt.printList s₂ 0 body ++ (Stmt.printDefault s₃ default ++
      (tag "endfor" [] ++ rest)))
    (hlength : (t.print s ++ keyword "in" :: (e.print s₁ .condition ++
      mark .closeStatement :: us)).length ≤ n) :
    Grammar.loop n stmt (t.print s ++ keyword "in" :: (e.print s₁ .condition ++
      mark .closeStatement :: us)) = .ok (.loop t e body default, tag "endfor" [] ++ rest) := by
  have hlater := hlength
  simp only [List.length_append, List.length_cons] at hlater
  have hiterable : exprWithin n (e.print s₁ .condition ++ mark .closeStatement :: us) = _ :=
    exprWithin_close he (by decide) (by rw [List.length_append, List.length_cons]; omega)
  have hends : beginsWith ["endfor", "else"] (Stmt.printDefault s₃ default ++
      (tag "endfor" [] ++ rest)) := by
    rcases printDefault_cases s₃ default with ⟨-, heq⟩ | heq <;> rw [heq] <;> rfl
  have hblock := block_printList h (s := s₂) (i := 0) (by decide) hbody hends (m := n)
    (by rw [← hus]; omega) (Nat.le_refl n)
  rw [Grammar.loop, bind_eq (sequence_target ht hlength), Target.toExpr_target?]
  show (acceptWord "in" >>= _) _ = _
  rw [bind_eq (acceptWord_of_true rfl), if_pos rfl, List.tail_cons, bind_eq hiterable,
    bind_eq closeStatement_mark, hus, bind_eq hblock]
  rcases printDefault_cases s₃ default with ⟨rfl, heq⟩ | heq
  · rw [heq, List.nil_append, bind_eq checkStatement_tag, if_neg (by decide)]
    rfl
  · have hend : beginsWith ["endfor"] (tag "endfor" [] ++ rest) := rfl
    rw [hus, heq] at hlater
    have hblock := block_printList h (s := s₃) (i := 0) (m := n) (by decide) hdefault hend
      (by simp only [List.length_append] at hlater ⊢; omega) (Nat.le_refl n)
    rw [heq, List.append_assoc, bind_eq checkStatement_tag, if_pos (by decide), tag_append,
      advance_bind, advance_bind, List.tail_cons, List.tail_cons, List.nil_append,
      bind_eq closeStatement_mark, bind_eq hblock]
    rfl

/-! ### The other statements -/

theorem sequence_print {e : Expr} (he : e.wellFormed) {kind : TokenKind} (hkind : kind ∈ closers)
    (hlength : (e.print s .sequence ++ mark kind :: rest).length ≤ n) :
    sequence n (exprWithin n) (e.print s .sequence ++ mark kind :: rest) =
      .ok (e, mark kind :: rest) :=
  (sequence_reads (exprWithin_reads n)).print s he _ (stops_mark hkind _ _) hlength

theorem assignment_assign {t v : Expr} (ht : t.wellFormed) (hv : v.wellFormed) {s₁ s₂ : Style}
    (hlength : (t.print s₁ .sequence ++ mark .equals :: (v.print s₂ .sequence ++
      mark .closeStatement :: rest)).length ≤ n) :
    assignment n stmt (t.print s₁ .sequence ++ mark .equals :: (v.print s₂ .sequence ++
      mark .closeStatement :: rest)) = .ok (.assign t v, rest) := by
  have hlater := hlength
  rw [List.length_append, List.length_cons] at hlater
  have hvalue :
      sequence n (exprWithin n) (v.print s₂ .sequence ++ mark .closeStatement :: rest) = _ :=
    sequence_print hv (by decide) (by omega)
  rw [assignment, bind_eq (sequence_print ht (by decide) hlength), bind_eq accept_mark, if_pos rfl,
    bind_eq hvalue, bind_eq closeStatement_mark]
  rfl

/-- The block of a statement with its end, read back. -/
theorem block_endStatement {α : Type} (h : ReadsStmts stmt n) {body : List Stmt}
    (hbody : Stmt.allWellFormed body) (hword : word ∈ enders)
    (hlength : (Stmt.printList s 0 body ++ (tag word [] ++ rest)).length ≤ n)
    (f : List Stmt → Reader α) :
    (block stmt [word] n >>= f) (Stmt.printList s 0 body ++ (tag word [] ++ rest)) =
      f body (tag word [] ++ rest) := by
  refine bind_eq (block_printList h ?_ hbody ?_ hlength (Nat.le_refl n))
  · simpa using hword
  · simp [beginsWith, tag_append, keyword]

theorem assignment_capture (h : ReadsStmts stmt n) {t : Expr} {body : List Stmt}
    (ht : t.wellFormed) (hbody : Stmt.allWellFormed body) {s₁ s₂ : Style}
    (hlength : (t.print s₁ .sequence ++ mark .closeStatement :: (Stmt.printList s₂ 0 body ++
      (tag "endset" [] ++ rest))).length ≤ n) :
    assignment n stmt (t.print s₁ .sequence ++ mark .closeStatement ::
      (Stmt.printList s₂ 0 body ++ (tag "endset" [] ++ rest))) =
      .ok (.capture t body, rest) := by
  have hlater := hlength
  rw [List.length_append, List.length_cons] at hlater
  rw [assignment, bind_eq (sequence_print ht (by decide) hlength),
    bind_eq (accept_of_ne (by simp)), if_neg (by simp), closeMark, bind_eq expect_mark,
    block_endStatement h hbody (by decide) (by omega), tag_append, openMark, bind_eq expect_mark,
    bind_eq expectWord_eq, List.nil_append, bind_eq closeStatement_mark]
  rfl

theorem primaryName_leaf {w : Word} {cause : GrammarCause} (hw : isPlainName w.text) :
    primaryName n cause (leaf .name w :: rest) = .ok (w, rest) := by
  rw [primaryName, bind_eq (primary_name hw)]
  rfl

theorem argumentList_exprWithin {args : List Arg} (hargs : Arg.allWellFormed args)
    (hordered : ordered false args) (hlength : (Arg.printList s i args ++ rest).length ≤ n) :
    argumentList n (exprWithin n) (Arg.printList s i args ++ rest) = .ok (args, rest) :=
  argumentList_printList (exprWithin_reads n) hargs hordered (Nat.le_succ_of_le hlength)
    (Nat.le_refl n)

theorem macroDefinition_print (h : ReadsStmts stmt n) {w : Word} {params : List Arg}
    {body : List Stmt} (hw : isPlainName w.text) (hparams : Arg.allWellFormed params)
    (hordered : ordered false params) (hbody : Stmt.allWellFormed body) {s₁ s₂ : Style}
    (hlength : (leaf .name w :: (Arg.printList s₁ 0 params ++ mark .closeStatement ::
      (Stmt.printList s₂ 0 body ++ (tag "endmacro" [] ++ rest)))).length ≤ n) :
    macroDefinition n stmt (leaf .name w :: (Arg.printList s₁ 0 params ++ mark .closeStatement ::
      (Stmt.printList s₂ 0 body ++ (tag "endmacro" [] ++ rest)))) =
      .ok (.defineMacro w params body, tag "endmacro" [] ++ rest) := by
  rw [List.length_cons] at hlength
  have hlater := hlength
  rw [List.length_append, List.length_cons] at hlater
  rw [macroDefinition, bind_eq (primaryName_leaf hw),
    bind_eq (argumentList_exprWithin hparams hordered (by omega)), bind_eq closeStatement_mark,
    block_endStatement h hbody (by decide) (by omega)]
  rfl

theorem callBlock_print (h : ReadsStmts stmt n) {w : Word} {args : List Arg}
    {params : Option (List Arg)} {body : List Stmt} (hw : isPlainName w.text)
    (hargs : Arg.allWellFormed args) (hordered : ordered false args)
    (hparams : Arg.allWellFormed (params.getD [])) (hpordered : ordered false (params.getD []))
    (hbody : Stmt.allWellFormed body) {s₁ s₂ s₃ : Style}
    (hlength : (Arg.printParams s₂ params ++ leaf .name w :: (Arg.printList s₁ 0 args ++
      mark .closeStatement :: (Stmt.printList s₃ 0 body ++ (tag "endcall" [] ++ rest)))).length ≤ n) :
    callBlock n stmt (Arg.printParams s₂ params ++ leaf .name w :: (Arg.printList s₁ 0 args ++
      mark .closeStatement :: (Stmt.printList s₃ 0 body ++ (tag "endcall" [] ++ rest)))) =
      .ok (.callBlock w args params body, rest) := by
  have hlater := hlength
  rw [List.length_append, List.length_cons, List.length_append, List.length_cons] at hlater
  have htail : (do
      let callee ← primaryName n .namelessCall
      let args ← argumentList n (exprWithin n)
      let _ ← closeStatement
      let body ← block stmt ["endcall"] n
      endStatement "endcall"
      return .callBlock callee args params body : Reader Stmt) (leaf .name w ::
        (Arg.printList s₁ 0 args ++ mark .closeStatement :: (Stmt.printList s₃ 0 body ++
          (tag "endcall" [] ++ rest)))) = .ok (.callBlock w args params body, rest) := by
    rw [bind_eq (primaryName_leaf hw),
      bind_eq (argumentList_exprWithin hargs hordered
        (by rw [List.length_append, List.length_cons]; omega)),
      bind_eq closeStatement_mark, block_endStatement h hbody (by decide) (by omega),
      bind_eq endStatement_tag]
    rfl
  rw [callBlock, check_bind]
  cases params with
  | none => exact htail
  | some params =>
    have hlist : argumentList n (exprWithin n) (Arg.printList s₂ 0 params ++ _) = .ok (params, _) :=
      argumentList_exprWithin hparams hpordered hlength
    exact (bind_eq (map_eq hlist)).trans htail

theorem filterBlock_print (h : ReadsStmts stmt n) {f : Expr} {body : List Stmt}
    (hw : isPlainName f.filterName.text) (hf : f.isFilter) (hbody : Stmt.allWellFormed body)
    {s₁ s₂ : Style} (hlength : (f.filterBody s₁ ++ mark .closeStatement ::
      (Stmt.printList s₂ 0 body ++ (tag "endfilter" [] ++ rest))).length ≤ n) :
    filterBlock n stmt (f.filterBody s₁ ++ mark .closeStatement ::
      (Stmt.printList s₂ 0 body ++ (tag "endfilter" [] ++ rest))) =
      .ok (.filterBlock f body, rest) := by
  have hlater := hlength
  rw [List.length_append, List.length_cons] at hlater
  obtain ⟨us, hfilter, hcalls⟩ := calls_filterBody (exprWithin_reads n) hf
    (stops_mark (by decide : TokenKind.closeStatement ∈ closers) .call _ .call (Level.le_refl _))
    (Nat.le_refl n) (Nat.le_succ_of_le hlength)
  rw [filterBlock, hfilter, bind_eq (primary_name hw)]
  show (calls (exprWithin n) n (.name f.filterName) >>= _) us = _
  rw [bind_eq hcalls]
  show (closeStatement >>= _) _ = _
  rw [bind_eq closeStatement_mark, block_endStatement h hbody (by decide) (by omega),
    bind_eq endStatement_tag]
  rfl

/-! ### Programs -/

theorem bind_endStatement {r : Reader Stmt} (h : r ts = .ok (st, tag word [] ++ rest)) :
    (do let st ← r; endStatement word; return st : Reader Stmt) ts = .ok (st, rest) := by
  rw [bind_eq h, bind_eq endStatement_tag]
  rfl

theorem piece_if (h : choice stmt n ts = .ok (st, tag "endif" [] ++ rest)) :
    piece n stmt (mark .openStatement :: keyword "if" :: ts) = .ok (st, rest) :=
  bind_endStatement h

theorem piece_for (h : Grammar.loop n stmt ts = .ok (st, tag "endfor" [] ++ rest)) :
    piece n stmt (mark .openStatement :: keyword "for" :: ts) = .ok (st, rest) :=
  bind_endStatement h

theorem piece_macro (h : macroDefinition n stmt ts = .ok (st, tag "endmacro" [] ++ rest)) :
    piece n stmt (mark .openStatement :: keyword "macro" :: ts) = .ok (st, rest) :=
  bind_endStatement h

theorem piece_print (h : ReadsStmts stmt n) (s : Style) {st : Stmt} (hst : st.wellFormed) :
    Reads (piece n stmt) (n + 1) (fun _ => True) (st.print s) st := by
  intro rest _ hlength
  cases st with
  | comment w | text w => rfl
  | output e =>
    have hprint : (Stmt.output e).print s ++ rest = mark .openExpression ::
        (e.print (s.child 0) .condition ++ mark .closeExpression :: rest) := by
      simp [Stmt.print]
    rw [hprint] at hlength ⊢
    have he := exprWithin_close hst (by decide) (Nat.le_of_succ_le_succ hlength)
    show (do
      let e ← exprWithin n
      let _ ← expect .closeExpression "Expected closing expression token"
      return .output e : Reader Stmt) _ = _
    rw [List.tail_cons, bind_eq he, bind_eq expect_mark]
    rfl
  | choice t body alternate =>
    simp only [Stmt.wellFormed, Bool.and_eq_true] at hst
    have hprint : (Stmt.choice t body alternate).print s ++ rest = mark .openStatement ::
        keyword "if" :: (branch s t body alternate ++ (tag "endif" [] ++ rest)) := by
      simp [Stmt.print, tag, branch]
    rw [hprint] at hlength ⊢
    refine piece_if (choice_branch h hst.1 hst.2.1 hst.2.2 ?_ (Nat.le_refl n))
    exact Nat.le_of_succ_le (Nat.le_of_succ_le_succ hlength)
  | loop t e body default =>
    simp only [Stmt.wellFormed, Bool.and_eq_true] at hst
    have hprint : (Stmt.loop t e body default).print s ++ rest = mark .openStatement ::
        keyword "for" :: (t.print (s.child 0) ++ keyword "in" ::
          (e.print (s.child 1) .condition ++ mark .closeStatement ::
            (Stmt.printList (s.child 2) 0 body ++ (Stmt.printDefault (s.child 3) default ++
              (tag "endfor" [] ++ rest))))) := by
      simp [Stmt.print, tag]
    rw [hprint] at hlength ⊢
    refine piece_for (loop_print h hst.1 hst.2.1 hst.2.2.1 hst.2.2.2 rfl ?_)
    exact Nat.le_of_succ_le (Nat.le_of_succ_le_succ hlength)
  | assign t v =>
    simp only [Stmt.wellFormed, Bool.and_eq_true] at hst
    have hprint : (Stmt.assign t v).print s ++ rest = mark .openStatement :: keyword "set" ::
        (t.print (s.child 0) .sequence ++ mark .equals :: (v.print (s.child 1) .sequence ++
          mark .closeStatement :: rest)) := by
      simp [Stmt.print, tag]
    rw [hprint] at hlength ⊢
    exact assignment_assign hst.1 hst.2 (Nat.le_of_succ_le (Nat.le_of_succ_le_succ hlength))
  | capture t body =>
    simp only [Stmt.wellFormed, Bool.and_eq_true] at hst
    have hprint : (Stmt.capture t body).print s ++ rest = mark .openStatement :: keyword "set" ::
        (t.print (s.child 0) .sequence ++ mark .closeStatement ::
          (Stmt.printList (s.child 1) 0 body ++ (tag "endset" [] ++ rest))) := by
      simp [Stmt.print, tag]
    rw [hprint] at hlength ⊢
    exact assignment_capture h hst.1 hst.2 (Nat.le_of_succ_le (Nat.le_of_succ_le_succ hlength))
  | defineMacro w params body =>
    simp only [Stmt.wellFormed, Bool.and_eq_true] at hst
    have hprint : (Stmt.defineMacro w params body).print s ++ rest = mark .openStatement ::
        keyword "macro" :: (leaf .name w :: (Arg.printList (s.child 0) 0 params ++
          mark .closeStatement :: (Stmt.printList (s.child 1) 0 body ++
            (tag "endmacro" [] ++ rest)))) := by
      simp [Stmt.print, tag]
    rw [hprint] at hlength ⊢
    refine piece_macro (macroDefinition_print h hst.1 hst.2.2.1 hst.2.1 hst.2.2.2 ?_)
    exact Nat.le_of_succ_le (Nat.le_of_succ_le_succ hlength)
  | callBlock w args params body =>
    simp only [Stmt.wellFormed, Bool.and_eq_true] at hst
    have hprint : (Stmt.callBlock w args params body).print s ++ rest = mark .openStatement ::
        keyword "call" :: (Arg.printParams (s.child 1) params ++ leaf .name w ::
          (Arg.printList (s.child 0) 0 args ++ mark .closeStatement ::
            (Stmt.printList (s.child 2) 0 body ++ (tag "endcall" [] ++ rest)))) := by
      simp [Stmt.print, tag]
    rw [hprint] at hlength ⊢
    obtain ⟨hw, hordered, hargs, hpordered, hparams, hbody⟩ := hst
    refine callBlock_print h hw hargs hordered hparams hpordered hbody ?_
    exact Nat.le_of_succ_le (Nat.le_of_succ_le_succ hlength)
  | filterBlock f body =>
    simp only [Stmt.wellFormed, Bool.and_eq_true] at hst
    have hprint : (Stmt.filterBlock f body).print s ++ rest = mark .openStatement ::
        keyword "filter" :: (f.filterBody (s.child 0) ++ mark .closeStatement ::
          (Stmt.printList (s.child 1) 0 body ++ (tag "endfilter" [] ++ rest))) := by
      simp [Stmt.print, tag]
    rw [hprint] at hlength ⊢
    refine filterBlock_print h hst.1 hst.2.1 hst.2.2 ?_
    exact Nat.le_of_succ_le (Nat.le_of_succ_le_succ hlength)
  | control signal w =>
    obtain ⟨text, pos⟩ := w
    obtain rfl : text = signal.word := by simpa [Stmt.wellFormed] using hst
    cases signal <;> rfl

theorem stmtWithin_reads (n : Nat) : ReadsStmts (stmtWithin n) n := by
  induction n with
  | zero =>
    intro s st _ rest _ hlength
    rw [List.length_append] at hlength
    exact absurd (List.length_eq_zero_iff.mp (by omega)) (print_ne_nil s st)
  | succ n ih => exact fun s st hst => piece_print ih s hst

theorem next_print_ne_eof (s : Style) (st : Stmt) (us : List Token) :
    ((next (st.print s ++ us)).kind == .eof) = false := by
  cases st <;> rfl

theorem statements_printList {ss : List Stmt} (hss : Stmt.allWellFormed ss) {t : Token}
    (ht : t.kind = .eof) (hlength : (Stmt.printList s i ss ++ t :: rest).length ≤ n) :
    statements n (Stmt.printList s i ss ++ t :: rest) = .ok (ss, t :: rest) := by
  induction ss generalizing i n with
  | nil =>
    cases n with
    | zero => simp [Stmt.printList] at hlength
    | succ n =>
      show statements (n + 1) (t :: rest) = _
      rw [statements, check_bind, next_cons, ht, beq_self_eq_true]
      rfl
  | cons st ss ih =>
    simp only [Stmt.allWellFormed, Bool.and_eq_true] at hss
    rw [Stmt.printList, List.append_assoc] at hlength ⊢
    have hlater := hlength
    have hpos := List.length_pos_iff.mpr (print_ne_nil (s.child i) st)
    rw [List.length_append] at hlater
    cases n with
    | zero => omega
    | succ n =>
      rw [statements, check_bind, next_print_ne_eof, if_neg (by simp),
        bind_eq (stmtWithin_reads (n + 1) (s.child i) st hss.1 _ trivial hlength),
        bind_eq (ih hss.2 (by omega))]
      rfl

end Grammar

open Grammar

/-- A well-formed program is what its tokens are read as, in whatever style it is printed. -/
theorem Program.ofTokens_print (s : Style) {program : Program}
    (h : Stmt.allWellFormed program) {t : Token} (ht : t.kind = .eof) :
    Program.ofTokens (program.print s ++ [t]) = .ok program := by
  have hread : statements _ (Stmt.printList s 0 program ++ [t]) = .ok (program, [t]) :=
    statements_printList h ht (Nat.le_refl _)
  exact congrArg (Except.map Prod.fst) hread

/-- A disjunction in a conjunction stands in parentheses, and one more pair does not matter. -/
theorem ofTokens_conjunction_of_disjunction :
    Program.ofTokens [mark .openExpression, mark .openParen, mark .openParen,
      leaf .name ⟨"a", ⟨1, 6⟩⟩, leaf .name ⟨"or", ⟨1, 8⟩⟩, leaf .name ⟨"b", ⟨1, 11⟩⟩,
      mark .closeParen, mark .closeParen, leaf .name ⟨"and", ⟨1, 15⟩⟩, leaf .name ⟨"c", ⟨1, 19⟩⟩,
      mark .closeExpression, mark .eof] =
    .ok [.output (.binary (.binary (.name ⟨"a", ⟨1, 6⟩⟩) ⟨"or", ⟨1, 8⟩⟩ (.name ⟨"b", ⟨1, 11⟩⟩))
      ⟨"and", ⟨1, 15⟩⟩ (.name ⟨"c", ⟨1, 19⟩⟩))] := by
  have h : Stmt.allWellFormed [.output (.binary
      (.binary (.name ⟨"a", ⟨1, 6⟩⟩) ⟨"or", ⟨1, 8⟩⟩ (.name ⟨"b", ⟨1, 11⟩⟩))
      ⟨"and", ⟨1, 15⟩⟩ (.name ⟨"c", ⟨1, 19⟩⟩))] := by decide
  let style : Style := ⟨fun path => if path = [0, 0, 0] then 1 else 0, fun _ => true⟩
  exact Program.ofTokens_print style h (t := mark .eof) rfl

end ChatTemplate
