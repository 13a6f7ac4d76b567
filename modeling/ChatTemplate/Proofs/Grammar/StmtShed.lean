import ChatTemplate.Proofs.Grammar.ExprShed

/-!
# Programs without comments

`Sheds P n m g r r'`: where the reader `r` takes tokens that satisfy `P`, the reader `r'` takes
those of them that are no comments, and `g` says what becomes of the answer. A comment is a
statement of its own, which the readers of blocks leave out (`Stmt.bareList`); within an expression
none is accepted, as whoever reads on behind one refuses it (`Refuses`).
-/

namespace ChatTemplate

def Stmt.isComment : Stmt → Bool
  | .comment _ => true
  | _ => false

mutual

/-- The statement without the comments in its bodies. -/
def Stmt.bare : Stmt → Stmt
  | .comment w => .comment w
  | .text w => .text w
  | .output e => .output e
  | .choice t body alternate => .choice t (Stmt.bareList body) (Stmt.bareList alternate)
  | .loop t e body default => .loop t e (Stmt.bareList body) (Stmt.bareList default)
  | .assign t v => .assign t v
  | .capture t body => .capture t (Stmt.bareList body)
  | .defineMacro w params body => .defineMacro w params (Stmt.bareList body)
  | .callBlock w args params body => .callBlock w args params (Stmt.bareList body)
  | .filterBlock f body => .filterBlock f (Stmt.bareList body)
  | .control signal w => .control signal w

/-- The statements without the comments among them and in their bodies. -/
def Stmt.bareList : List Stmt → List Stmt
  | [] => []
  | s :: ss => if s.isComment then Stmt.bareList ss else s.bare :: Stmt.bareList ss

end

theorem Stmt.bareList_cons_of_comment {s : Stmt} (h : s.isComment) (ss : List Stmt) :
    Stmt.bareList (s :: ss) = Stmt.bareList ss := by
  rw [Stmt.bareList, if_pos h]

theorem Stmt.bareList_cons {s : Stmt} (h : s.isComment = false) (ss : List Stmt) :
    Stmt.bareList (s :: ss) = s.bare :: Stmt.bareList ss := by
  rw [Stmt.bareList, if_neg (Bool.eq_false_iff.mp h)]

/-- The program without its comments. -/
def Program.bare (p : Program) : Program := Stmt.bareList p

namespace Grammar
open Reader

variable {α β γ : Type} {P : List Token → Prop} {k n m : Nat} {ts rest : List Token} {t : Token}
  {kind : TokenKind} {g : α → β} {r : Reader α} {r' : Reader β}

/-! ### Two readers of statements -/

structure Sheds (P : List Token → Prop) (n m : Nat) (g : α → β) (r : Reader α) (r' : Reader β) :
    Prop where
  suffix : ∀ ts a rest, r ts = .ok (a, rest) → rest <:+ ts
  same : ∀ ts a rest, P ts → r ts = .ok (a, rest) → ts.length ≤ n → (shed ts).length ≤ m →
    r' (shed ts) = .ok (g a, shed rest)

theorem shed_length_of_suffix (h : rest <:+ ts) : (shed rest).length ≤ (shed ts).length :=
  (h.filter _).length_le

theorem sheds_pure {a : α} {b : β} (h : g a = b) : Sheds P n m g (pure a) (pure b) where
  suffix := by
    rintro ts _ _ ⟨⟩
    exact List.suffix_refl ts
  same := by
    rintro ts _ _ - ⟨⟩ - -
    rw [h]
    rfl

theorem sheds_of_fails (h : ∀ ts p, r ts ≠ .ok p) : Sheds P n m g r r' :=
  ⟨fun ts _ _ hr => absurd hr (h ts _), fun ts _ _ _ hr => absurd hr (h ts _)⟩

/-- What holds where the first reader stops may be made use of by what reads on. -/
theorem Sheds.bind_post {f : α → Reader γ} {δ : Type} {f' : β → Reader δ} {g' : γ → δ}
    (h : Sheds P n m g r r')
    (hpost : ∀ ts a rest, r ts = .ok (a, rest) → ts.length ≤ n → Q rest)
    (hf : ∀ a, Sheds Q n m g' (f a) (f' (g a))) : Sheds P n m g' (r >>= f) (r' >>= f') where
  suffix ts b rest hr := by
    obtain ⟨a, us, ha, hb⟩ := bind_eq_ok hr
    exact ((hf a).suffix us b rest hb).trans (h.suffix ts a us ha)
  same ts b rest hP hr hts hshed := by
    obtain ⟨a, us, ha, hb⟩ := bind_eq_ok hr
    have hsuffix := h.suffix ts a us ha
    rw [bind_eq (h.same ts a us hP ha hts hshed)]
    exact (hf a).same us b rest (hpost ts a us ha hts) hb (hsuffix.length_le.trans hts)
      ((shed_length_of_suffix hsuffix).trans hshed)

/-- Of any tokens. -/
abbrev ShedsAll (n m : Nat) (g : α → β) (r : Reader α) (r' : Reader β) : Prop :=
  Sheds (fun _ => True) n m g r r'

theorem Sheds.bind {f : α → Reader γ} {δ : Type} {f' : β → Reader δ} {g' : γ → δ}
    (h : Sheds P n m g r r') (hf : ∀ a, ShedsAll n m g' (f a) (f' (g a))) :
    Sheds P n m g' (r >>= f) (r' >>= f') :=
  h.bind_post (fun _ _ _ _ _ => trivial) hf

/-! ### Expressions in statements -/

/-- The reader takes nothing of tokens that satisfy `P`. -/
def Refuses (P : List Token → Prop) (r : Reader α) : Prop := ∀ ts p, P ts → r ts ≠ .ok p

theorem Refuses.bind {f : α → Reader γ} (h : Refuses P r) : Refuses P (r >>= f) := by
  rintro ts ⟨b, rest⟩ hP hr
  obtain ⟨a, us, ha, -⟩ := bind_eq_ok hr
  exact h ts _ hP ha

theorem Stalled.next_ne (h : Stalled ts) (hcomment : kind ≠ .comment) (hname : kind ≠ .name) :
    (next ts).kind ≠ kind := by
  rintro rfl
  rcases h with h | ⟨h, -⟩
  · exact hcomment h
  · rw [isName, Bool.and_eq_true, beq_iff_eq] at h
    exact hname h.1

theorem refuses_expect {what : String} (hcomment : kind ≠ .comment) (hname : kind ≠ .name) :
    Refuses Stalled (expect kind what) := by
  intro ts p hstalled hr
  rw [expect_apply] at hr
  split_ifs at hr with hnext
  · exact hstalled.next_ne hcomment hname (beq_iff_eq.mp hnext)
  · cases hr

theorem Agrees.refuses {s s' : Reader α} {f : α → Reader γ} (h : Agrees k n m s s')
    (hf : ∀ a, Refuses Stalled (f a)) : Refuses Stalled (s >>= f) := by
  rintro ts ⟨b, rest⟩ hstalled hr
  obtain ⟨a, us, ha, hb⟩ := bind_eq_ok hr
  exact hf a us _ (hstalled.leads (h.leads ha)) hb

/-- An expression, and what refuses the comments behind it. -/
theorem Agrees.thenSheds {s s' : Reader α} {f : α → Reader β} {f' : α → Reader γ} {g : β → γ}
    (h : Agrees k n m s s') (hf : ∀ a, ShedsAll (n - k) (m - k) g (f a) (f' a))
    (hrefuses : ∀ a, Refuses Stalled (f a)) : Sheds P n m g (s >>= f) (s' >>= f') where
  suffix ts b rest hr := by
    obtain ⟨a, us, ha, hb⟩ := bind_eq_ok hr
    obtain ⟨front, hts, -⟩ := h.leads ha
    exact ((hf a).suffix us b rest hb).trans ⟨front, hts.symm⟩
  same ts b rest _ hr hts hshed := by
    obtain ⟨a, us, ha, hb⟩ := bind_eq_ok hr
    rcases h.same ts a us ha hts hshed with hstalled | hsame
    · exact absurd hb (hrefuses a us _ hstalled)
    · obtain ⟨front, rfl, hfront, hlength⟩ := h.takes ts a us ha
      rw [List.length_append] at hts
      rw [shed_append, shed_exprTokens hfront, List.length_append] at hshed
      rw [bind_eq hsame]
      exact (hf a).same us b rest trivial hb (by omega) (by omega)

/-! ### Marks and words -/

/-- Readers that take a token that passes the test `f`, and leave any other to `no`. -/
theorem sheds_test (f : Token → Bool) (yes : Token → Reader α) (yes' : Token → Reader β)
    {no : Reader α} {no' : Reader β}
    (hr : ∀ ts, r ts = if f (next ts) then yes (next ts) ts.tail else no ts)
    (hr' : ∀ ts, r' ts = if f (next ts) then yes' (next ts) ts.tail else no' ts)
    (hf : ∀ t, f t → t.kind ≠ .comment)
    (hyes : ∀ t, ShedsAll n m g (yes t) (yes' t)) (hno : ShedsAll n m g no no')
    (hrefuses : Refuses Stalled no) : Sheds P n m g r r' where
  suffix ts a rest h := by
    rw [hr] at h
    split_ifs at h with hnext
    · exact ((hyes _).suffix _ a rest h).trans (List.tail_suffix ts)
    · exact hno.suffix ts a rest h
  same ts a rest _ h hts hshed := by
    rw [hr] at h
    split_ifs at h with hnext
    · have hcomment := hf _ hnext
      rw [hr', next_shed hcomment, if_pos hnext, tail_shed hcomment]
      have hsuffix := List.tail_suffix ts
      exact (hyes _).same _ a rest trivial h (hsuffix.length_le.trans hts)
        ((shed_length_of_suffix hsuffix).trans hshed)
    · have hcomment : (next ts).kind ≠ .comment := fun hkind => hrefuses ts _ (.inl hkind) h
      rw [hr', next_shed hcomment, if_neg hnext]
      exact hno.same ts a rest trivial h hts hshed

theorem refuses_fail {cause : TokenKind → GrammarCause} : Refuses P (fail cause : Reader α) :=
  fun _ _ _ => nofun

theorem sheds_fail {cause : TokenKind → GrammarCause} : Sheds P n m g (fail cause) r' :=
  sheds_of_fails nofun

theorem ne_comment_of_beq (hkind : kind ≠ .comment) (t : Token) (h : t.kind == kind) :
    t.kind ≠ .comment :=
  beq_iff_eq.mp h ▸ hkind

theorem ne_comment_of_isName {word : String} (t : Token) (h : isName word t) :
    t.kind ≠ .comment := by
  rw [isName, Bool.and_eq_true, beq_iff_eq] at h
  rw [h.1]
  decide

theorem sheds_expect {what : String} (hkind : kind ≠ .comment) :
    Sheds P n m id (expect kind what) (expect kind what) :=
  sheds_test (·.kind == kind) pure pure expect_apply expect_apply (ne_comment_of_beq hkind)
    (fun _ => sheds_pure rfl) sheds_fail refuses_fail

theorem sheds_expectWord {word : String} :
    Sheds P n m id (expectWord word) (expectWord word) := by
  have heq : ∀ ts, expectWord word ts = if isName word (next ts)
      then (pure (next ts) : Reader Token) ts.tail else fail (fun _ => .missingWord word) ts := by
    intro ts
    rw [expectWord]
    change (if isName word (next ts) then _ else _ : Reader Token) ts = _
    split_ifs <;> rfl
  exact sheds_test (isName word) pure pure heq heq ne_comment_of_isName
    (fun t => sheds_pure rfl) sheds_fail refuses_fail

theorem sheds_endStatement (word : String) :
    Sheds P n m id (endStatement word) (endStatement word) := by
  unfold endStatement openMark closeMark
  refine (sheds_expect (by decide)).bind fun o => sheds_expectWord.bind fun w => ?_
  exact (sheds_expect (by decide)).bind fun c => sheds_pure rfl

theorem sheds_accept {f : Bool → Reader α} {f' : Bool → Reader β} (hkind : kind ≠ .comment)
    (hyes : ShedsAll n m g (f true) (f' true)) (hno : ShedsAll n m g (f false) (f' false))
    (hrefuses : Refuses Stalled (f false)) :
    Sheds P n m g (accept kind >>= f) (accept kind >>= f') :=
  sheds_test (·.kind == kind) (fun _ => f true) (fun _ => f' true) (accept_bind f) (accept_bind f')
    (ne_comment_of_beq hkind) (fun _ => hyes) hno hrefuses

theorem sheds_acceptWord {word : String} {f : Bool → Reader α} {f' : Bool → Reader β}
    (hyes : ShedsAll n m g (f true) (f' true)) (hno : ShedsAll n m g (f false) (f' false))
    (hrefuses : Refuses Stalled (f false)) :
    Sheds P n m g (acceptWord word >>= f) (acceptWord word >>= f') :=
  sheds_test (isName word) (fun _ => f true) (fun _ => f' true) (acceptWord_bind f)
    (acceptWord_bind f') ne_comment_of_isName (fun _ => hyes) hno hrefuses

theorem refuses_accept {f : Bool → Reader α} (hcomment : kind ≠ .comment) (hname : kind ≠ .name)
    (h : Refuses Stalled (f false)) : Refuses Stalled (accept kind >>= f) := by
  intro ts p hstalled hr
  rw [bind_eq (accept_of_ne (hstalled.next_ne hcomment hname))] at hr
  exact h ts p hstalled hr

theorem refuses_acceptWord {word : String} {f : Bool → Reader α} (hword : word ≠ "not")
    (h : Refuses Stalled (f false)) : Refuses Stalled (acceptWord word >>= f) := by
  intro ts p hstalled hr
  have hnext : isName word (next ts) = false := by
    rw [Bool.eq_false_iff]
    intro hnext
    rcases hstalled with hstalled | ⟨hstalled, -⟩
    · exact ne_comment_of_isName _ hnext hstalled
    · rw [isName, Bool.and_eq_true, beq_iff_eq, beq_iff_eq] at hnext hstalled
      exact hword (hnext.2.symm.trans hstalled.2)
  rw [bind_eq (acceptWord_of_false hnext)] at hr
  exact h ts p hstalled hr

/-! ### Blocks -/

/-- A statement mark and a word come next. -/
def AtTag (ts : List Token) : Prop :=
  ∃ o w us, ts = o :: w :: us ∧ o.kind = .openStatement ∧ w.kind = .name

theorem atTag_of_check {ends : List String}
    (h : checkStatement ends ts = .ok (true, rest)) : AtTag ts := by
  rw [checkStatement] at h
  simp only [Except.ok.injEq, Prod.mk.injEq, Bool.and_eq_true, beq_iff_eq] at h
  obtain ⟨⟨⟨hopen, hname⟩, -⟩, -⟩ := h
  obtain ⟨o, us, rfl⟩ := exists_of_kind hopen (by decide)
  obtain ⟨w, vs, rfl⟩ := exists_of_kind hname (by decide)
  exact ⟨_, _, vs, rfl, rfl, rfl⟩

/-- The mark and the word are seen where comments are shed. -/
theorem AtTag.check_shed {ends : List String} {b : Bool} (h : AtTag ts)
    (hcheck : checkStatement ends ts = .ok (b, ts)) :
    checkStatement ends (shed ts) = .ok (b, shed ts) := by
  obtain ⟨o, w, us, rfl, ho, hw⟩ := h
  have hshed : shed (o :: w :: us) = o :: w :: shed us := by
    rw [shed_cons (ho ▸ nofun), shed_cons (hw ▸ nofun)]
  rw [hshed]
  rw [checkStatement] at hcheck ⊢
  simp only [List.tail_cons, List.headD_cons, Except.ok.injEq, Prod.mk.injEq, and_true] at hcheck ⊢
  exact hcheck

variable {stmt stmt' : Reader Stmt} {ends : List String}

/-- Of a statement that is no comment `stmt'` takes what `stmt` takes. -/
structure ShedsStmt (n m : Nat) (stmt stmt' : Reader Stmt) : Prop where
  careful : Careful closed stmt
  lt : ∀ ts s rest, stmt ts = .ok (s, rest) → rest.length < ts.length
  lt' : ∀ ts s rest, stmt' ts = .ok (s, rest) → rest.length < ts.length
  /-- Another statement than a comment that begins like the end of a block is one for both. -/
  check : ∀ ts s rest, stmt ts = .ok (s, rest) → s.isComment = false →
    ∀ ends, checkStatement ends ts = .ok (false, ts) →
      checkStatement ends (shed ts) = .ok (false, shed ts)
  comment : ∀ ts s rest, stmt ts = .ok (s, rest) → s.isComment → shed ts = shed rest
  same : ∀ ts s rest, stmt ts = .ok (s, rest) → s.isComment = false → ts.length ≤ n →
    (shed ts).length ≤ m → stmt' (shed ts) = .ok (s.bare, shed rest)

theorem Careful.suffix {r : Reader α} {a : α} (h : Careful Grammar.closed r)
    (hr : r ts = .ok (a, rest)) : rest <:+ ts := by
  have hts := h (fun _ => False) ts
  rw [hr] at hts
  obtain ⟨front, hfront, -⟩ := hts
  exact ⟨front, hfront.symm⟩

theorem ShedsStmt.mono {n' m' : Nat} (h : ShedsStmt n m stmt stmt') (hn : n' ≤ n) (hm : m' ≤ m) :
    ShedsStmt n' m' stmt stmt' :=
  { h with same := fun ts s rest hs hcomment hts hshed =>
      h.same ts s rest hs hcomment (hts.trans hn) (hshed.trans hm) }

theorem exists_check (ends : List String) (ts : List Token) :
    ∃ b, checkStatement ends ts = .ok (b, ts) := ⟨_, rfl⟩

/-- Either the block ends where it is, or a statement is taken and the block goes on behind it. -/
theorem block_cases {ss : List Stmt} (h : block stmt ends n ts = .ok (ss, rest)) :
    checkStatement ends ts = .ok (true, ts) ∧ ss = [] ∧ rest = ts ∨
      checkStatement ends ts = .ok (false, ts) ∧ ∃ s us, stmt ts = .ok (s, us) ∧
        (n = 0 ∧ ss = [s] ∧ rest = us ∨
          ∃ i ss', n = i + 1 ∧ block stmt ends i us = .ok (ss', rest) ∧ ss = s :: ss') := by
  obtain ⟨b, hcheck⟩ := exists_check ends ts
  cases n with
  | zero =>
    rw [block, bind_eq hcheck] at h
    cases b with
    | true =>
      cases h
      exact .inl ⟨hcheck, rfl, rfl⟩
    | false =>
      obtain ⟨s, us, hs, h⟩ := bind_eq_ok (show (stmt >>= _) ts = .ok (ss, rest) from h)
      cases h
      exact .inr ⟨hcheck, s, rest, hs, .inl ⟨rfl, rfl, rfl⟩⟩
  | succ n =>
    rw [block, bind_eq hcheck] at h
    cases b with
    | true =>
      cases h
      exact .inl ⟨hcheck, rfl, rfl⟩
    | false =>
      obtain ⟨s, us, hs, h⟩ := bind_eq_ok (show (stmt >>= _) ts = .ok (ss, rest) from h)
      obtain ⟨ss', vs, hss, h⟩ := bind_eq_ok h
      cases h
      exact .inr ⟨hcheck, s, us, hs, .inr ⟨n, ss', rfl, hss, rfl⟩⟩

/-- Where the bound is kept to, a block is read up to a statement mark. -/
theorem atTag_of_block (hstmt : ShedsStmt m k stmt stmt') {ss : List Stmt}
    (h : block stmt ends n ts = .ok (ss, rest)) (hts : ts.length ≤ n) : AtTag rest := by
  induction n generalizing ts ss with
  | zero =>
    rcases block_cases h with ⟨hcheck, -, rfl⟩ | ⟨-, s, us, hs, -⟩
    · exact atTag_of_check hcheck
    · exact absurd (hstmt.lt ts s us hs) (by omega)
  | succ n ih =>
    rcases block_cases h with ⟨hcheck, -, rfl⟩ | ⟨-, s, us, hs, hnext⟩
    · exact atTag_of_check hcheck
    · have hlt := hstmt.lt ts s us hs
      rcases hnext with ⟨hzero, -⟩ | ⟨i, ss', hi, hss, -⟩
      · cases hzero
      · obtain rfl := Nat.succ.inj hi
        exact ih hss (by omega)

theorem block_true {ts : List Token} (h : checkStatement ends ts = .ok (true, ts)) (n : Nat) :
    block stmt ends n ts = .ok ([], ts) := by
  cases n with
  | zero | succ n =>
    rw [block, bind_eq h]
    rfl

theorem block_step {s : Stmt} {us : List Token} {ss : List Stmt}
    (hcheck : checkStatement ends ts = .ok (false, ts)) (hs : stmt ts = .ok (s, us))
    (hss : block stmt ends n us = .ok (ss, rest)) :
    block stmt ends (n + 1) ts = .ok (s :: ss, rest) := by
  rw [block, bind_eq hcheck]
  show (stmt >>= _) ts = _
  rw [bind_eq hs, bind_eq hss]
  rfl

/-- Whatever comments stand in a block, the others of its statements are read as before. -/
theorem block_same (hstmt : ShedsStmt n m stmt stmt') {i j : Nat} (hi : i ≤ n) (hj : j ≤ m)
    {ss : List Stmt} (h : block stmt ends i ts = .ok (ss, rest)) (hts : ts.length ≤ i)
    (hshed : (shed ts).length ≤ j) :
    block stmt' ends j (shed ts) = .ok (Stmt.bareList ss, shed rest) := by
  induction i generalizing ts ss j with
  | zero =>
    rcases block_cases h with ⟨hcheck, rfl, rfl⟩ | ⟨-, s, us, hs, -⟩
    · exact block_true ((atTag_of_check hcheck).check_shed hcheck) j
    · exact absurd (hstmt.lt ts s us hs) (by omega)
  | succ i ih =>
    rcases block_cases h with ⟨hcheck, rfl, rfl⟩ | ⟨hcheck, s, us, hs, hnext⟩
    · exact block_true ((atTag_of_check hcheck).check_shed hcheck) j
    have hlt := hstmt.lt ts s us hs
    have hle := shed_length_of_suffix (hstmt.careful.suffix hs)
    obtain ⟨hzero, -⟩ | ⟨_, ss', ⟨⟩, hss, rfl⟩ := hnext
    · cases hzero
    cases hcomment : s.isComment with
    | true =>
      rw [hstmt.comment ts s us hs hcomment, Stmt.bareList_cons_of_comment hcomment]
      exact ih (Nat.le_of_succ_le hi) hj hss (by omega) (by omega)
    | false =>
      have hsame := hstmt.same ts s us hs hcomment (by omega) (by omega)
      have hlt' := hstmt.lt' _ _ _ hsame
      obtain ⟨j, rfl⟩ : ∃ j', j = j' + 1 := Nat.exists_eq_succ_of_ne_zero (by omega)
      rw [Stmt.bareList_cons hcomment]
      refine block_step (hstmt.check ts s us hs hcomment ends hcheck) hsame ?_
      exact ih (Nat.le_of_succ_le hi) (Nat.le_of_succ_le hj) hss (by omega) (by omega)

theorem block_sheds (hstmt : ShedsStmt n m stmt stmt') (ends : List String) :
    Sheds P n m Stmt.bareList (block stmt ends n) (block stmt' ends m) where
  suffix _ _ _ := (block_careful hstmt.careful ends n).suffix
  same _ _ _ _ h hts hshed := block_same hstmt (Nat.le_refl n) (Nat.le_refl m) h hts hshed

/-- A block, and what is read at the statement mark behind it. -/
theorem Sheds.afterBlock (hstmt : ShedsStmt n m stmt stmt') {f : List Stmt → Reader α}
    {f' : List Stmt → Reader β}
    (hf : ∀ ss, Sheds AtTag n m g (f ss) (f' (Stmt.bareList ss))) :
    Sheds P n m g (block stmt ends n >>= f) (block stmt' ends m >>= f') :=
  (block_sheds hstmt ends).bind_post (fun _ _ _ h hts => atTag_of_block hstmt h hts) hf

theorem AtTag.tail (h : AtTag ts) :
    (shed ts).tail.tail = shed ts.tail.tail ∧ ts.tail.tail <:+ ts := by
  obtain ⟨o, w, us, rfl, ho, hw⟩ := h
  rw [shed_cons (ho ▸ nofun), shed_cons (hw ▸ nofun)]
  exact ⟨rfl, [o, w], rfl⟩

/-- A statement mark and its word are taken where they come next. -/
theorem sheds_tag {word : String} {yes no : Reader α} {yes' no' : Reader β}
    (hyes : ShedsAll n m g yes yes') (hno : Sheds AtTag n m g no no') :
    Sheds AtTag n m g (do
      if ← checkStatement [word] then
        let _ ← advance
        let _ ← advance
        yes
      else no) (do
      if ← checkStatement [word] then
        let _ ← advance
        let _ ← advance
        yes'
      else no') where
  suffix ts a rest h := by
    obtain ⟨b, hcheck⟩ := exists_check [word] ts
    rw [bind_eq hcheck] at h
    cases b with
    | false => exact hno.suffix ts a rest h
    | true => exact (hyes.suffix _ a rest h).trans (atTag_of_check hcheck).tail.2
  same ts a rest hat h hts hshed := by
    obtain ⟨b, hcheck⟩ := exists_check [word] ts
    rw [bind_eq hcheck] at h
    rw [bind_eq (hat.check_shed hcheck)]
    cases b with
    | false => exact hno.same ts a rest hat h hts hshed
    | true =>
      obtain ⟨htail, hsuffix⟩ := hat.tail
      show yes' (shed ts).tail.tail = _
      rw [htail]
      exact hyes.same _ a rest trivial h (hsuffix.length_le.trans hts)
        ((shed_length_of_suffix hsuffix).trans hshed)

/-! ### Statements -/

/-- Behind an expression, a closing mark and what comes behind it. -/
theorem Agrees.thenMark {s s' : Reader α} {what : String} {f : α → Reader β} {f' : α → Reader γ}
    {g : β → γ} (h : Agrees k n m s s') (hcomment : kind ≠ .comment) (hname : kind ≠ .name)
    (hf : ∀ a, ShedsAll (n - k) (m - k) g (f a) (f' a)) :
    Sheds P n m g (do let a ← s; let _ ← expect kind what; f a)
      (do let a ← s'; let _ ← expect kind what; f' a) :=
  h.thenSheds (fun a => (sheds_expect hcomment).bind fun _ => hf a)
    fun _ => (refuses_expect hcomment hname).bind

theorem assignment_sheds (hstmt : ShedsStmt n m stmt stmt') :
    ShedsAll n m Stmt.bare (assignment n stmt) (assignment m stmt') := by
  have hexpr := (sequence_agrees (exprWithin_agrees n m)).zero
  unfold assignment closeStatement closeMark openMark
  refine hexpr.thenSheds (fun target => ?_) fun target => ?_
  · refine sheds_accept (by decide) ?_ ?_ (refuses_expect (by decide) (by decide)).bind
    · exact hexpr.thenMark (by decide) (by decide) fun value => sheds_pure rfl
    · refine (sheds_expect (by decide)).bind fun c => .afterBlock hstmt fun body => ?_
      refine (sheds_expect (by decide)).bind fun o => sheds_expectWord.bind fun w => ?_
      exact (sheds_expect (by decide)).bind fun c => sheds_pure rfl
  · exact refuses_accept (by decide) (by decide) (refuses_expect (by decide) (by decide)).bind

/-- All that the reader returns satisfies `Q`. -/
def Yields (Q : α → Prop) (r : Reader α) : Prop := ∀ ts a rest, r ts = .ok (a, rest) → Q a

theorem yields_pure {Q : α → Prop} {a : α} (h : Q a) : Yields Q (pure a) := by
  rintro ts _ _ ⟨⟩
  exact h

theorem yields_bind {Q : γ → Prop} {r : Reader α} {f : α → Reader γ} (hf : ∀ a, Yields Q (f a)) :
    Yields Q (r >>= f) := by
  intro ts b rest hr
  obtain ⟨a, us, -, hb⟩ := bind_eq_ok hr
  exact hf a us b rest hb

theorem choice_yields : ∀ n, Yields (fun s => s.isComment = false) (choice stmt n)
  | 0 => nofun
  | n + 1 => by
    unfold choice
    refine yields_bind fun test => yields_bind fun c => yields_bind fun body => ?_
    refine yields_bind fun b => ?_
    split_ifs
    · exact yields_bind fun o => yields_bind fun w => yields_bind fun s => yields_pure rfl
    · refine yields_bind fun b => ?_
      split_ifs
      · refine yields_bind fun o => yields_bind fun w => yields_bind fun c => ?_
        exact yields_bind fun alternate => yields_pure rfl
      · exact yields_pure rfl

/-- An answer that is put to use. -/
theorem Sheds.return {γ δ : Type} {f : α → γ} {f' : β → δ} {g' : γ → δ} (h : Sheds P n m g r r')
    (hf : ∀ ts a rest, r ts = .ok (a, rest) → g' (f a) = f' (g a)) :
    Sheds P n m g' (do return f (← r)) (do return f' (← r')) where
  suffix ts b rest hr := by
    obtain ⟨a, us, ha, hb⟩ := bind_eq_ok hr
    cases hb
    exact h.suffix ts a rest ha
  same ts b rest hP hr hts hshed := by
    obtain ⟨a, us, ha, hb⟩ := bind_eq_ok hr
    cases hb
    rw [bind_eq (h.same ts a rest hP ha hts hshed), hf ts a rest ha]
    rfl

theorem choice_sheds (hstmt : ShedsStmt n m stmt stmt') : ∀ i ≤ n, ∀ j ≤ m,
    ShedsAll i j Stmt.bare (choice stmt i) (choice stmt' j)
  | 0, _, _, _ => sheds_fail
  | i + 1, _, 0, _ => by
    refine ⟨fun _ _ _ => (choice_careful hstmt.careful (i + 1)).suffix, ?_⟩
    intro ts s rest _ h _ hshed
    have hexpr := (exprWithin_agrees (i + 1) 0).toAgrees
    exfalso
    rcases eq_nil_or_stalled (List.length_eq_zero_iff.mp (Nat.le_zero.mp hshed)) with rfl | hstalled
    · obtain ⟨test, us, htest, -⟩ := bind_eq_ok (show (exprWithin (i + 1) >>= _) [] = _ from h)
      exact not_ok_nil hexpr _ htest
    · exact hexpr.refuses (fun _ => (refuses_expect (by decide) (by decide)).bind) ts _ hstalled h
  | i + 1, hi, j + 1, hj => by
    have hstmt' : ShedsStmt i j stmt stmt' :=
      hstmt.mono (Nat.le_of_succ_le hi) (Nat.le_of_succ_le hj)
    have ih := choice_sheds hstmt i (Nat.le_of_succ_le hi) j (Nat.le_of_succ_le hj)
    unfold choice closeStatement
    refine (exprWithin_agrees (i + 1) (j + 1)).thenMark (by decide) (by decide) fun test => ?_
    refine .afterBlock hstmt' fun body => sheds_tag ?_ (sheds_tag ?_ (sheds_pure rfl))
    · refine ih.return fun ts s rest hs => ?_
      rw [Stmt.bare, Stmt.bareList_cons (choice_yields i ts s rest hs), Stmt.bareList]
    · refine (sheds_expect (by decide)).bind fun c => .afterBlock hstmt' fun alternate => ?_
      exact sheds_pure rfl

theorem loop_sheds (hstmt : ShedsStmt n m stmt stmt') :
    ShedsAll n m Stmt.bare (loop n stmt) (loop m stmt') := by
  have hprimary : AgreesInside n m (primary n (exprWithin n)) (primary m (exprWithin m)) :=
    ⟨(primary_agrees (exprWithin_agrees n m)).mono (Nat.le_refl 1) (Nat.le_succ n) (Nat.le_succ m),
      primary_careful (exprWithin_careful n)⟩
  have hmissing : Refuses Stalled (fail fun _ => .missingIn : Reader Stmt) := refuses_fail
  have hmissing' : ShedsAll n m Stmt.bare (fail fun _ => .missingIn) (fail fun _ => .missingIn) :=
    sheds_fail
  unfold loop closeStatement
  refine (sequence_agrees hprimary).zero.thenSheds (fun e => ?_) fun e => ?_
  · cases e.target? with
    | none => exact sheds_fail
    | some target =>
      refine sheds_acceptWord ?_ hmissing' hmissing
      refine (exprWithin_agrees n m).zero.thenMark (by decide) (by decide) fun iterable => ?_
      refine .afterBlock hstmt fun body => sheds_tag ?_ (sheds_pure rfl)
      refine (sheds_expect (by decide)).bind fun c => .afterBlock hstmt fun default => ?_
      exact sheds_pure rfl
  · cases e.target? with
    | none => exact refuses_fail
    | some target => exact refuses_acceptWord (by decide) hmissing

theorem primaryName_agrees {cause : GrammarCause} :
    Agrees 0 n m (primaryName n cause) (primaryName m cause) := by
  have hprimary := primary_agrees (exprWithin_agrees n m)
  unfold primaryName
  refine (hprimary.mono (Nat.zero_le 1) (Nat.le_succ n) (Nat.le_succ m)).bind fun e => ?_
  cases e with
  | name w => exact agrees_pure w
  | _ => exact agrees_fail

theorem arguments_agree :
    Agrees 0 n m (argumentList n (exprWithin n)) (argumentList m (exprWithin m)) :=
  (argumentList_agrees (exprWithin_agrees n m)).mono (Nat.zero_le 1) (Nat.le_succ n) (Nat.le_succ m)

theorem refuses_arguments : Refuses Stalled (argumentList n (exprWithin n)) :=
  (refuses_expect (by decide) (by decide)).bind

theorem macroDefinition_sheds (hstmt : ShedsStmt n m stmt stmt') :
    ShedsAll n m Stmt.bare (macroDefinition n stmt) (macroDefinition m stmt') := by
  unfold macroDefinition closeStatement
  refine primaryName_agrees.thenSheds (fun name => ?_) fun name => refuses_arguments.bind
  refine arguments_agree.thenMark (by decide) (by decide) fun params => ?_
  exact .afterBlock hstmt fun body => sheds_pure rfl

/-- A call block behind its parameters. -/
def callee (n : Nat) (stmt : Reader Stmt) (params : Option (List Arg)) : Reader Stmt := do
  let callee ← primaryName n .namelessCall
  let args ← argumentList n (exprWithin n)
  let _ ← closeStatement
  let body ← block stmt ["endcall"] n
  endStatement "endcall"
  return .callBlock callee args params body

theorem callee_refuses (params : Option (List Arg)) : Refuses Stalled (callee n stmt params) :=
  (primaryName_agrees (m := n)).refuses fun _ => refuses_arguments.bind

theorem callee_sheds (hstmt : ShedsStmt n m stmt stmt') (params : Option (List Arg)) :
    ShedsAll n m Stmt.bare (callee n stmt params) (callee m stmt' params) := by
  unfold callee closeStatement
  refine primaryName_agrees.thenSheds (fun name => ?_) fun name => refuses_arguments.bind
  refine arguments_agree.thenMark (by decide) (by decide) fun args => ?_
  refine .afterBlock hstmt fun body => ?_
  exact (sheds_endStatement _).bind fun _ => sheds_pure rfl

/-- Whether a token comes next is the same where the comments are shed, if no comment is accepted
instead. -/
theorem sheds_check {f : Bool → Reader α} {f' : Bool → Reader β} (hkind : kind ≠ .comment)
    (h : ∀ b, ShedsAll n m g (f b) (f' b)) (hrefuses : Refuses Stalled (f false)) :
    ShedsAll n m g (check kind >>= f) (check kind >>= f') where
  suffix ts a rest hr := (h _).suffix ts a rest hr
  same ts a rest _ hr hts hshed := by
    rw [check_bind] at hr ⊢
    have hcomment : (next ts).kind ≠ .comment := by
      intro hnext
      rw [hnext, beq_false_of_ne hkind.symm] at hr
      exact hrefuses ts _ (.inl hnext) hr
    rw [next_shed hcomment]
    exact (h _).same ts a rest trivial hr hts hshed

theorem callBlock_sheds (hstmt : ShedsStmt n m stmt stmt') :
    ShedsAll n m Stmt.bare (callBlock n stmt) (callBlock m stmt') := by
  refine sheds_check (by decide) (fun b => ?_) (callee_refuses none)
  cases b with
  | true => exact arguments_agree.map.thenSheds (callee_sheds hstmt) callee_refuses
  | false => exact callee_sheds hstmt none

theorem filterBlock_sheds (hstmt : ShedsStmt n m stmt stmt') :
    ShedsAll n m Stmt.bare (filterBlock n stmt) (filterBlock m stmt') := by
  have hinside := exprWithin_agrees n m
  have hbody : ∀ (f : Expr), ShedsAll n m Stmt.bare (do
      let body ← block stmt ["endfilter"] n
      endStatement "endfilter"
      return Stmt.filterBlock f body) (do
      let body ← block stmt' ["endfilter"] m
      endStatement "endfilter"
      return Stmt.filterBlock f body) :=
    fun f => .afterBlock hstmt fun body => (sheds_endStatement _).bind fun _ => sheds_pure rfl
  have hmark {α : Type} {f : Token → Reader α} : Refuses Stalled (closeStatement >>= f) :=
    (refuses_expect (by decide) (by decide)).bind
  have hprimary := (primary_agrees hinside).mono (Nat.zero_le 1) (Nat.le_succ n) (Nat.le_succ m)
  unfold filterBlock
  refine hprimary.thenSheds (fun e => ?_) fun e => ?_
  · cases e with
    | name w => exact (calls_agrees hinside (.name w)).thenMark (by decide) (by decide) hbody
    | _ => exact (agrees_pure _).thenMark (by decide) (by decide) hbody
  · cases e with
    | name w => exact (calls_agrees hinside (.name w)).refuses fun f => hmark
    | _ => exact (agrees_pure (n := n) (m := m) _).refuses fun f => hmark

theorem control_sheds {signal : LoopSignal} {t : Token} :
    ShedsAll n m Stmt.bare (control signal t) (control signal t) := by
  unfold control closeStatement
  exact (sheds_expect (by decide)).bind fun c => sheds_pure rfl

/-- A statement that ends with a statement of one word. -/
theorem Sheds.ended {r r' : Reader Stmt} {word : String} (h : ShedsAll n m Stmt.bare r r') :
    ShedsAll n m Stmt.bare (do let s ← r; endStatement word; return s)
      (do let s ← r'; endStatement word; return s) :=
  h.bind fun _ => (sheds_endStatement word).bind fun _ => sheds_pure rfl

theorem statement_sheds (hstmt : ShedsStmt n m stmt stmt') :
    ShedsAll n m Stmt.bare (statement n stmt) (statement m stmt') := by
  refine ⟨fun _ _ _ => (statement_careful hstmt.careful).suffix, fun ts s rest _ h hts hshed => ?_⟩
  rw [statement, check_bind] at h
  split_ifs at h with hname
  · cases h
  have hkind : (next ts).kind = .name := by simpa using hname
  obtain ⟨⟨word, pos⟩, us, rfl⟩ := exists_of_kind hkind (by decide)
  rw [shed_cons (show TokenKind.name ≠ .comment by decide)] at hshed ⊢
  rw [List.length_cons] at hts hshed
  have hts' := Nat.le_of_succ_le hts
  have hshed' := Nat.le_of_succ_le hshed
  have hnot : ¬ (!(TokenKind.name == .name)) = true := Bool.false_ne_true
  rw [statement, check_bind, next_cons, if_neg hnot]
  rw [peek_bind, next_cons] at h ⊢
  dsimp only at h
  split at h
  · exact (assignment_sheds hstmt).same us s rest trivial h hts' hshed'
  · have hchoice := choice_sheds hstmt n (Nat.le_refl n) m (Nat.le_refl m)
    exact hchoice.ended.same us s rest trivial h hts' hshed'
  · exact (macroDefinition_sheds hstmt).ended.same us s rest trivial h hts' hshed'
  · exact (loop_sheds hstmt).ended.same us s rest trivial h hts' hshed'
  · exact (callBlock_sheds hstmt).same us s rest trivial h hts' hshed'
  · exact (filterBlock_sheds hstmt).same us s rest trivial h hts' hshed'
  · exact control_sheds.same us s rest trivial h hts' hshed'
  · exact control_sheds.same us s rest trivial h hts' hshed'
  · cases h

theorem next_of_statement {s : Stmt} (h : statement n stmt ts = .ok (s, rest)) :
    (next ts).kind = .name := by
  rw [statement, check_bind] at h
  split_ifs at h with hname
  · cases h
  · simpa using hname

/-- A comment is taken alone. -/
theorem eq_of_comment {s : Stmt} (h : stmtWithin n ts = .ok (s, rest)) (hs : s.isComment) :
    ∃ t, ts = t :: rest ∧ t.kind = .comment := by
  obtain ⟨ps, rfl, hspelled⟩ := stmtWithin_takes n ts s rest h
  cases hspelled with
  | comment w => exact ⟨⟨.comment, w.text, w.pos⟩, rfl, rfl⟩
  | ofChoice hchoice => cases hchoice <;> cases hs
  | _ => cases hs

theorem check_of_stmtWithin {s : Stmt} (h : stmtWithin n ts = .ok (s, rest))
    (hs : s.isComment = false) (ends : List String)
    (hcheck : checkStatement ends ts = .ok (false, ts)) :
    checkStatement ends (shed ts) = .ok (false, shed ts) := by
  cases n with
  | zero => cases h
  | succ n =>
    obtain _ | ⟨⟨kind, value, pos⟩, us⟩ := ts
    · cases h
    rw [stmtWithin, piece, peek_bind, next_cons] at h
    cases kind with
    | comment =>
      cases h
      cases hs
    | openStatement =>
      obtain ⟨w, vs, rfl⟩ := exists_of_kind (next_of_statement h) (by decide)
      exact AtTag.check_shed ⟨_, _, vs, rfl, rfl, rfl⟩ hcheck
    | text | openExpression =>
      rw [shed_cons (by simp)]
      rfl
    | _ => cases h

theorem piece_same (hstmt : ShedsStmt n m stmt stmt') {s : Stmt}
    (h : piece n stmt ts = .ok (s, rest)) (hs : s.isComment = false) (hts : ts.length ≤ n + 1)
    (hshed : (shed ts).length ≤ m + 1) : piece m stmt' (shed ts) = .ok (s.bare, shed rest) := by
  obtain _ | ⟨⟨kind, value, pos⟩, us⟩ := ts
  · cases h
  rw [piece, peek_bind, next_cons] at h
  have hus := Nat.le_of_succ_le_succ hts
  cases kind with
  | comment =>
    cases h
    cases hs
  | text =>
    cases h
    rw [shed_cons (by simp)]
    rfl
  | openStatement =>
    rw [shed_cons (by simp)] at hshed ⊢
    exact (statement_sheds hstmt).same us s rest trivial h hus (Nat.le_of_succ_le_succ hshed)
  | openExpression =>
    rw [shed_cons (by simp)] at hshed ⊢
    have houtput : ShedsAll n m Stmt.bare (do
        let e ← exprWithin n
        let _ ← expect .closeExpression "Expected closing expression token"
        return Stmt.output e) (do
        let e ← exprWithin m
        let _ ← expect .closeExpression "Expected closing expression token"
        return Stmt.output e) :=
      (exprWithin_agrees n m).zero.thenMark (by decide) (by decide) fun e => sheds_pure rfl
    exact houtput.same us s rest trivial h hus (Nat.le_of_succ_le_succ hshed)
  | _ => cases h

theorem exists_of_stmtWithin {s : Stmt} (h : stmtWithin n ts = .ok (s, rest))
    (hs : s.isComment = false) : ∃ t us, ts = t :: us ∧ t.kind ≠ .comment := by
  cases n with
  | zero => cases h
  | succ n =>
    obtain _ | ⟨⟨kind, value, pos⟩, us⟩ := ts
    · cases h
    refine ⟨_, us, rfl, ?_⟩
    rintro rfl
    cases h
    cases hs

/-- The knot is tied by induction on the bound. -/
theorem stmtWithin_same : ∀ n m {ts s rest}, stmtWithin n ts = .ok (s, rest) →
    s.isComment = false → ts.length ≤ n → (shed ts).length ≤ m →
      stmtWithin m (shed ts) = .ok (s.bare, shed rest)
  | 0, _, _, _, _, h, _, _, _ => nomatch h
  | n + 1, 0, _, _, _, h, hs, _, hshed => by
    obtain ⟨t, us, rfl, ht⟩ := exists_of_stmtWithin h hs
    rw [shed_cons ht] at hshed
    cases hshed
  | n + 1, m + 1, _, _, _, h, hs, hts, hshed => by
    refine piece_same ⟨stmtWithin_careful n, fun _ _ _ => stmtWithin_lt, fun _ _ _ => stmtWithin_lt,
      fun _ _ _ => check_of_stmtWithin, fun ts s rest h hs => ?_, fun _ _ _ => stmtWithin_same n m⟩
      h hs hts hshed
    obtain ⟨t, rfl, ht⟩ := eq_of_comment h hs
    exact shed_comment ht

/-! ### Programs -/

theorem statements_same : ∀ n m {ts ss rest}, statements n ts = .ok (ss, rest) → ts.length ≤ n →
    (shed ts).length ≤ m → statements m (shed ts) = .ok (Stmt.bareList ss, shed rest)
  | 0, m, ts, _, _, h, hts, _ => by
    obtain rfl := List.length_eq_zero_iff.mp (Nat.le_zero.mp hts)
    cases h
    cases m <;> rfl
  | n + 1, m, ts, ss, rest, h, hts, hshed => by
    rw [statements, check_bind] at h
    split_ifs at h with hend
    · cases h
      have hkind := beq_iff_eq.mp hend
      cases m with
      | zero => rfl
      | succ m =>
        rw [statements, check_bind, next_shed (by rw [hkind]; decide), if_pos hend]
        rfl
    · obtain ⟨s, us, hs, h⟩ := bind_eq_ok h
      obtain ⟨ss', vs, hss, h⟩ := bind_eq_ok h
      cases h
      have hlt := stmtWithin_lt hs
      have hle := shed_length_of_suffix ((stmtWithin_careful (n + 1)).suffix hs)
      cases hcomment : s.isComment with
      | true =>
        obtain ⟨t, rfl, ht⟩ := eq_of_comment hs hcomment
        rw [Stmt.bareList_cons_of_comment hcomment, shed_comment ht]
        exact statements_same n m hss (by omega) (by omega)
      | false =>
        obtain ⟨t, ts, rfl, ht⟩ := exists_of_stmtWithin hs hcomment
        have hsame := stmtWithin_same (n + 1) m hs hcomment hts hshed
        have hlt' := stmtWithin_lt hsame
        obtain ⟨m, rfl⟩ : ∃ m', m = m' + 1 := Nat.exists_eq_succ_of_ne_zero (by omega)
        have hnext : (next (t :: ts)).kind ≠ .comment := ht
        rw [statements, check_bind, next_shed hnext, if_neg hend, Stmt.bareList_cons hcomment,
          bind_eq hsame, bind_eq (statements_same n m hss (by omega) (by omega))]
        rfl

end Grammar

/-- The comments of an accepted text are not missed by the grammar. -/
theorem Program.ofTokens_shed {ts : List Token} {p : Program} (h : ofTokens ts = .ok p) :
    ofTokens (Grammar.shed ts) = .ok p.bare := by
  cases hread : Grammar.statements ts.length ts with
  | error fault =>
    rw [ofTokens, StateT.run, hread] at h
    cases h
  | ok q =>
    obtain ⟨ss, rest⟩ := q
    rw [ofTokens, StateT.run, hread] at h
    cases h
    rw [ofTokens, StateT.run, Grammar.statements_same _ _ hread (Nat.le_refl _) (Nat.le_refl _)]
    rfl

end ChatTemplate
