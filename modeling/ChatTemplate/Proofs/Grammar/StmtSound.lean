import ChatTemplate.Proofs.Grammar.ExprSound

/-!
# What is read for a program spells it

One lemma for each rule of the grammar of statements, as for expressions. The reader of a whole text
stops at an end mark only, and no chunk holds one: up to the end mark every token of an accepted
text belongs to a chunk (`Program.exists_spelled`).
-/

namespace ChatTemplate.Grammar
open Reader Chunk

variable {α : Type} {n : Nat} {ts rest : List Token}

/-! ### Blocks -/

variable {stmt : Reader Stmt}

/-- What the reader of statements takes spells the statement. -/
abbrev TakesStmt (stmt : Reader Stmt) : Prop := Takes stmt fun s => Spelled (.stmt s)

theorem block_takes (hstmt : TakesStmt stmt) (ends : List String) : ∀ n,
    Takes (block stmt ends n) fun ss => Spelled (.block ss)
  | 0 => by
    rw [block]
    refine takes_checkStatement fun b => ?_
    split_ifs
    · exact takes_pure .noStmt
    · exact hstmt.bind fun s ps hs => takes_pure (by simpa using hs.stmts .noStmt)
  | n + 1 => by
    rw [block]
    refine takes_checkStatement fun b => ?_
    split_ifs
    · exact takes_pure .noStmt
    · refine hstmt.bind fun s ps hs => (block_takes hstmt ends n).bind fun ss qs hss => ?_
      exact takes_pure (by simpa using hs.stmts hss)

theorem exists_of_checkStatement {word : String} (h : checkStatement [word] ts = .ok (true, rest)) :
    ∃ (o : Word) (pos : Pos) (us : List Token),
      ts = ⟨.openStatement, o.text, o.pos⟩ :: ⟨.name, word, pos⟩ :: us ∧ rest = ts := by
  rw [checkStatement] at h
  simp only [Except.ok.injEq, Prod.mk.injEq, Bool.and_eq_true, beq_iff_eq, List.contains_cons,
    List.contains_nil, Bool.or_false] at h
  obtain ⟨⟨⟨hopen, hname⟩, hword⟩, hrest⟩ := h
  obtain ⟨o, us, rfl⟩ := exists_of_kind hopen nofun
  obtain ⟨w, vs, rfl⟩ := exists_of_kind hname nofun
  obtain rfl : w.text = word := hword
  exact ⟨o, w.pos, vs, rfl, hrest.symm⟩

/-- A statement mark and its word, which are taken where they come next. -/
theorem takes_tag {word : String} {yes no : Reader α} (hmem : word ∈ keywords)
    (hyes : ∀ o pos, Takes yes fun a ps => P a (opening o word pos hmem ++ ps)) (hno : Takes no P) :
    Takes (do
      if ← checkStatement [word] then
        let _ ← advance
        let _ ← advance
        yes
      else no) P := by
  intro ts a rest h
  obtain ⟨b, us, hcheck, h⟩ := bind_eq_ok h
  obtain rfl : ts = us := (Prod.mk.inj (Except.ok.inj hcheck)).2
  cases b with
  | false => exact hno ts a rest h
  | true =>
    obtain ⟨o, pos, vs, rfl, -⟩ := exists_of_checkStatement hcheck
    obtain ⟨ps, rfl, hP⟩ := hyes o pos vs a rest h
    exact ⟨_, rfl, hP⟩

theorem endStatement_takes {word : String} (hmem : word ∈ keywords) :
    Takes (endStatement word) fun _ ps => ∃ o c pos, ps = ending o c word pos hmem := by
  unfold endStatement openMark closeMark
  refine takes_expect rfl fun o => takes_expectWord hmem fun t => takes_expect rfl fun c => ?_
  exact takes_pure ⟨_, _, _, rfl⟩

/-! ### Statements -/

/-- The chunks spell the statement once its mark and its word stand before them. -/
def Follows (word : String) (s : Stmt) (ps : List Chunk) (hmem : word ∈ keywords := by decide) :
    Prop :=
  ∀ o pos, Spelled (.stmt s) (opening o word pos hmem ++ ps)

theorem assignment_takes (hstmt : TakesStmt stmt) :
    Takes (assignment n stmt) fun s ps => Follows "set" s ps := by
  have hexpr : TakesExpr (sequence n (exprWithin n)) := sequence_takes (exprWithin_takes n)
  unfold assignment closeStatement closeMark openMark
  refine hexpr.bind fun t ps ht => takes_accept rfl (fun m => ?_) ?_
  · refine hexpr.bind fun v qs hv => takes_expect rfl fun c => takes_pure fun o pos => ?_
    exact ht.assign hv
  · refine takes_expect rfl fun c => (block_takes hstmt _ n).bind fun body qs hbody => ?_
    refine takes_expect rfl fun o' => takes_expectWord (by decide) fun t' => ?_
    exact takes_expect rfl fun c' => takes_pure fun o pos => ht.capture hbody

theorem choice_takes (hstmt : TakesStmt stmt) : ∀ n,
    Takes (choice stmt n) fun s => Spelled (.choice s)
  | 0 => takes_fail
  | n + 1 => by
    unfold choice closeStatement
    refine (exprWithin_takes _).bind fun t ps ht => takes_expect rfl fun c => ?_
    refine (block_takes hstmt _ n).bind fun body qs hbody => ?_
    refine takes_tag (by decide) (fun o pos => ?_) (takes_tag (by decide) (fun o pos => ?_) ?_)
    · refine (choice_takes hstmt n).bind fun s us hs => takes_pure ?_
      simpa using ht.choiceElif hbody hs
    · refine takes_expect rfl fun c' => (block_takes hstmt _ n).bind fun alternate us h => ?_
      exact takes_pure (by simpa using ht.choice hbody h.otherwise)
    · exact takes_pure (by simpa using ht.choice hbody .noElse)

theorem loop_takes (hstmt : TakesStmt stmt) : Takes (loop n stmt) fun s ps =>
    ∀ o c pos, Follows "for" s (ps ++ ending o c "endfor" pos) := by
  have hprimary : TakesExpr (primary n (exprWithin n)) :=
    (primary_takes (exprWithin_takes n)).mono fun e ps he => he.1
  unfold loop closeStatement
  refine (sequence_takes hprimary).bind fun e ps he => ?_
  split
  · exact takes_fail
  · rename_i target htarget
    refine takes_acceptWord (by decide) (fun inPos => ?_) ?_
    · rw [if_pos rfl]
      refine (exprWithin_takes n).bind fun i qs hi => takes_expect rfl fun c => ?_
      refine (block_takes hstmt _ n).bind fun body us hbody => ?_
      refine takes_tag (by decide) (fun o pos => ?_) ?_
      · refine takes_expect rfl fun c' => (block_takes hstmt _ n).bind fun default vs h => ?_
        refine takes_pure fun o' c' pos' o pos => ?_
        simpa using he.loop htarget hi hbody h.otherwise
      · refine takes_pure fun o' c' pos' o pos => ?_
        simpa using he.loop htarget hi hbody .noElse
    · rw [if_neg Bool.false_ne_true]
      exact takes_fail

theorem primaryName_takes {cause : GrammarCause} :
    Takes (primaryName n cause) fun w => Spelled (.expr (.name w)) := by
  unfold primaryName
  refine (primary_takes (exprWithin_takes n)).bind fun e ps he => ?_
  split
  · exact takes_pure (by simpa using he.1)
  · exact takes_fail

theorem macroDefinition_takes (hstmt : TakesStmt stmt) : Takes (macroDefinition n stmt) fun s ps =>
    ∀ o c pos, Follows "macro" s (ps ++ ending o c "endmacro" pos) := by
  unfold macroDefinition closeStatement
  refine primaryName_takes.bind fun w ps hw => ?_
  refine (argumentList_takes (exprWithin_takes n)).bind fun params qs hparams => ?_
  refine takes_expect rfl fun c => (block_takes hstmt _ n).bind fun body us hbody => ?_
  refine takes_pure fun o' c' pos' o pos => ?_
  simpa using hw.defineMacro hparams hbody

theorem takes_params {k : Option (List Arg) → Reader Stmt} {R : Stmt → List Chunk → Prop}
    (h : ∀ params ps, Spelled (.args params) ps → Takes (k params) fun s qs => R s (ps ++ qs)) :
    Takes (check .openParen >>= fun b =>
      if b then (some <$> argumentList n (exprWithin n)) >>= k else pure none >>= k) R := by
  refine takes_check fun b => ?_
  split_ifs
  · have hargs : Takes (some <$> argumentList n (exprWithin n)) fun as => Spelled (.args as) :=
      (argumentList_takes (exprWithin_takes n)).map fun as ps has => has
    exact hargs.bind h
  · exact h none [] .noArgs

theorem callBlock_takes (hstmt : TakesStmt stmt) :
    Takes (callBlock n stmt) fun s ps => Follows "call" s ps := by
  unfold callBlock closeStatement
  dsimp only
  refine takes_params fun params ps hparams => primaryName_takes.bind fun w qs hw => ?_
  refine (argumentList_takes (exprWithin_takes n)).bind fun as rs has => takes_expect rfl fun c => ?_
  refine (block_takes hstmt _ n).bind fun body us hbody => ?_
  refine (endStatement_takes (by decide)).bind fun _ vs hend => takes_pure ?_
  obtain ⟨o', c', pos', rfl⟩ := hend
  intro o pos
  simpa using hparams.callBlock hw has hbody

theorem takes_filterName {e : Expr} {ps : List Chunk} {k : Expr → Reader Stmt}
    {R : Stmt → List Chunk → Prop} (he : Spelled (.expr e) ps)
    (hname : beginWithName ps → e.isName)
    (h : ∀ f qs, Spelled (.expr f) (ps ++ qs) → (beginWithName (ps ++ qs) → f.filterForm) →
      Takes (k f) fun s us => R s (qs ++ us)) :
    Takes (match e with
      | .name _ => calls (exprWithin n) n e >>= k
      | _ => pure e >>= k) R := by
  split
  · refine (calls_takes (exprWithin_takes n) n _).bind fun f qs hf => ?_
    exact h f qs (hf.2 ps he) fun _ => hf.1 rfl
  · rename_i hne
    refine (h e [] (by simpa using he) fun hbegin => ?_)
    have hisName : e.isName := hname (by simpa using hbegin)
    cases e with
    | name w => exact absurd rfl (hne w)
    | _ => cases hisName

theorem filterBlock_takes (hstmt : TakesStmt stmt) :
    Takes (filterBlock n stmt) fun s ps => Follows "filter" s ps := by
  unfold filterBlock closeStatement
  refine (primary_takes (exprWithin_takes n)).bind fun e ps he => ?_
  dsimp only
  refine takes_filterName he.1 he.2 fun f qs hf hform => takes_expect rfl fun c => ?_
  refine (block_takes hstmt _ n).bind fun body us hbody => ?_
  refine (endStatement_takes (by decide)).bind fun _ vs hend => takes_pure ?_
  obtain ⟨o', c', pos', rfl⟩ := hend
  intro o pos
  simpa using hf.filterBlock hform hbody

/-- A statement that ends with a statement of one word. -/
theorem takes_ended {word : String} {r : Reader Stmt} {R : Stmt → List Chunk → Prop}
    (hmem : word ∈ keywords)
    (h : Takes r fun s ps => ∀ o c pos, R s (ps ++ ending o c word pos hmem)) :
    Takes (do let s ← r; endStatement word; return s) R := by
  refine h.bind fun s ps hs => (endStatement_takes hmem).bind fun _ qs hend => takes_pure ?_
  obtain ⟨o, c, pos, rfl⟩ := hend
  simpa using hs o c pos

theorem control_takes (signal : LoopSignal) {t : Token} (h : t.value = signal.word) :
    Takes (control signal t) fun s ps =>
      ∀ o, Spelled (.stmt s) (.mark .openStatement o :: .leaf .name t.word :: ps) := by
  unfold control closeStatement
  exact takes_expect rfl fun c => takes_pure fun o => .control h

theorem statement_takes (hstmt : TakesStmt stmt) : Takes (statement n stmt) fun s ps =>
    ∀ o, Spelled (.stmt s) (.mark .openStatement o :: ps) := by
  intro ts s rest h
  rw [statement, check_bind] at h
  split_ifs at h with hname
  · cases h
  have hkind : (next ts).kind = .name := by simpa using hname
  obtain ⟨⟨word, pos⟩, us, rfl⟩ := exists_of_kind hkind nofun
  rw [peek_bind, next_cons] at h
  dsimp only at h
  split at h
  · obtain ⟨ps, rfl, hps⟩ := assignment_takes hstmt us s rest h
    exact ⟨_, rfl, fun o => hps o pos⟩
  · have hended := takes_ended (R := fun s ps => Follows "if" s ps) (by decide) <|
      (choice_takes hstmt n).mono fun s ps hs o c pos o' pos' => hs.ofChoice
    obtain ⟨ps, rfl, hps⟩ := hended us s rest h
    exact ⟨_, rfl, fun o => hps o pos⟩
  · have hended := takes_ended (R := fun s ps => Follows "macro" s ps) (by decide)
      (macroDefinition_takes (n := n) hstmt)
    obtain ⟨ps, rfl, hps⟩ := hended us s rest h
    exact ⟨_, rfl, fun o => hps o pos⟩
  · have hended := takes_ended (R := fun s ps => Follows "for" s ps) (by decide)
      (loop_takes (n := n) hstmt)
    obtain ⟨ps, rfl, hps⟩ := hended us s rest h
    exact ⟨_, rfl, fun o => hps o pos⟩
  · obtain ⟨ps, rfl, hps⟩ := callBlock_takes hstmt us s rest h
    exact ⟨_, rfl, fun o => hps o pos⟩
  · obtain ⟨ps, rfl, hps⟩ := filterBlock_takes hstmt us s rest h
    exact ⟨_, rfl, fun o => hps o pos⟩
  · obtain ⟨ps, rfl, hps⟩ := control_takes .break rfl us s rest h
    exact ⟨_, rfl, hps⟩
  · obtain ⟨ps, rfl, hps⟩ := control_takes .continue rfl us s rest h
    exact ⟨_, rfl, hps⟩
  · cases h

theorem piece_takes (hstmt : TakesStmt stmt) : TakesStmt (piece n stmt) := by
  rintro (_ | ⟨⟨kind, value, pos⟩, ts⟩) s rest h
  · cases h
  rw [piece, peek_bind, next_cons] at h
  cases kind with
  | comment =>
    cases h
    exact ⟨[.leaf .comment ⟨value, pos⟩], rfl, .comment _⟩
  | text =>
    cases h
    exact ⟨[.leaf .text ⟨value, pos⟩], rfl, .text _⟩
  | openStatement =>
    obtain ⟨ps, rfl, hps⟩ := statement_takes hstmt ts s rest h
    exact ⟨_, rfl, hps ⟨value, pos⟩⟩
  | openExpression =>
    have houtput : Takes (do
        let e ← exprWithin n
        let _ ← expect .closeExpression "Expected closing expression token"
        return .output e) fun s ps => ∀ o, Spelled (.stmt s) (.mark .openExpression o :: ps) :=
      (exprWithin_takes n).bind fun e ps he => takes_expect rfl fun c => takes_pure fun o => he.output
    obtain ⟨ps, rfl, hps⟩ := houtput ts s rest h
    exact ⟨_, rfl, hps ⟨value, pos⟩⟩
  | _ => cases h

theorem stmtWithin_takes : ∀ n, TakesStmt (stmtWithin n)
  | 0 => takes_fail
  | n + 1 => piece_takes (stmtWithin_takes n)

/-! ### The whole text -/

theorem tokens_ne_eof (p : Chunk) : ∀ t ∈ p.tokens, t.kind ≠ .eof := by
  induction p with
  | leaf kind w content =>
    intro t ht
    obtain rfl := List.mem_singleton.mp ht
    rintro rfl
    exact absurd content (by decide)
  | mark kind w hmark =>
    intro t ht
    obtain rfl := List.mem_singleton.mp ht
    exact ne_eof_of_isMark hmark
  | dropped p ih => exact ih
  | _ => simp [Chunk.tokens]

theorem flat_ne_eof {ps : List Chunk} : ∀ t ∈ flat ps, t.kind ≠ .eof := by
  intro t ht
  obtain ⟨p, -, hp⟩ := List.mem_flatMap.mp ht
  exact tokens_ne_eof p t hp

theorem stmtWithin_lt {s : Stmt} (h : stmtWithin n ts = .ok (s, rest)) : rest.length < ts.length := by
  obtain ⟨ps, rfl, hs⟩ := stmtWithin_takes n ts s rest h
  have hne : flat ps ≠ [] := by
    cases hs with
    | _ => simp [Chunk.tokens, between, opening]
  have hpos := List.length_pos_iff.mpr hne
  simp only [List.length_append]
  omega

theorem statements_takes : ∀ n, Takes (statements n) fun ss => Spelled (.block ss)
  | 0 => takes_pure .noStmt
  | n + 1 => by
    rw [statements]
    refine takes_check fun b => ?_
    split_ifs
    · exact takes_pure .noStmt
    · refine (stmtWithin_takes _).bind fun s ps hs => (statements_takes n).bind fun ss qs hss => ?_
      exact takes_pure (by simpa using hs.stmts hss)

/-- The reader stops at an end mark only. -/
theorem next_of_statements {ss : List Stmt} (h : statements n ts = .ok (ss, rest))
    (hlength : ts.length ≤ n) : (next rest).kind = .eof := by
  induction n generalizing ts ss with
  | zero =>
    obtain rfl : ts = [] := List.length_eq_zero_iff.mp (Nat.le_zero.mp hlength)
    cases h
    rfl
  | succ n ih =>
    rw [statements, check_bind] at h
    split_ifs at h with hend
    · cases h
      exact beq_iff_eq.mp hend
    · obtain ⟨s, us, hs, h⟩ := bind_eq_ok h
      obtain ⟨ss', vs, hss, h⟩ := bind_eq_ok h
      cases h
      have hlt := stmtWithin_lt hs
      exact ih hss (by omega)

end Grammar

/-- What the grammar takes of an accepted text spells the program, and nothing or an end mark comes
next. -/
theorem Program.exists_spelled_front {ts : List Token} {p : Program} (h : ofTokens ts = .ok p) :
    ∃ ps rest, ts = Chunk.flat ps ++ rest ∧ Spelled (.block p) ps ∧
      (Grammar.next rest).kind = .eof := by
  cases hread : Grammar.statements ts.length ts with
  | error fault =>
    rw [ofTokens, StateT.run, hread] at h
    cases h
  | ok q =>
    obtain ⟨ss, rest⟩ := q
    rw [ofTokens, StateT.run, hread] at h
    cases h
    obtain ⟨ps, rfl, hps⟩ := Grammar.statements_takes _ _ _ _ hread
    exact ⟨ps, rest, rfl, hps, Grammar.next_of_statements hread (Nat.le_refl _)⟩

/-- Every token of an accepted text up to its end mark belongs to a chunk, and the chunks spell the
program. -/
theorem Program.exists_spelled {ts : List Token} {e : Token} {p : Program}
    (hts : ∀ t ∈ ts, t.kind ≠ .eof) (he : e.kind = .eof) (h : ofTokens (ts ++ [e]) = .ok p) :
    ∃ ps, ts = Chunk.flat ps ∧ Spelled (.block p) ps := by
  obtain ⟨ps, rest, hflat, hps, hend⟩ := exists_spelled_front h
  refine ⟨ps, ?_, hps⟩
  rcases List.append_eq_append_iff.mp hflat with ⟨us, hus, hrest⟩ | ⟨us, rfl, hrest⟩
  · cases us with
    | nil => rw [hus, List.append_nil]
    | cons t us =>
      obtain ⟨rfl, -⟩ := List.cons.inj hrest
      have hmem : e ∈ Chunk.flat ps := by
        rw [hus]
        exact List.mem_append_right _ List.mem_cons_self
      exact absurd he (Grammar.flat_ne_eof e hmem)
  · cases us with
    | nil => rw [List.append_nil]
    | cons t us =>
      rw [hrest] at hend
      exact absurd hend (hts t (by simp))

end ChatTemplate
