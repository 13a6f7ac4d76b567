import ChatTemplate.Proofs.Grammar.Items

/-!
# Printed expressions are read back

`exprWithin_reads`: the reader of expressions takes every printed expression, whatever superfluous
parentheses stand in it. The induction goes along the operands of one bracket; what stands inside
the brackets in it is read with a smaller bound (`ReadsAll expr n .condition`). A rule that groups
to the left has taken its left operand and goes on with the tokens behind it, which is what `Chains`
says; a rule of a looser level then finds nothing of its own to go on with (`Chains.loosen`).
-/

namespace ChatTemplate.Grammar
open Reader

/-- The rule of a level. -/
def readAt (n : Nat) (expr : Reader Expr) : Level → Reader Expr
  | .sequence => sequence n expr
  | .condition => condition n expr
  | .disjunction => disjunction n expr
  | .conjunction => conjunction n expr
  | .negation => negation n expr
  | .comparison => comparison n expr
  | .additive => additive n expr
  | .multiplicative => multiplicative n expr
  | .test => tested n expr
  | .filter => filtered n expr
  | .call => callOrMember n expr
  | .primary => primary n expr

/-- The binary operators of a level. -/
def operatorAt? : Level → List Token → Option (Word × List Token)
  | .disjunction => wordOp? "or"
  | .conjunction => wordOp? "and"
  | .comparison => comparisonOp?
  | .additive => kindOp? .additive
  | .multiplicative => kindOp? .multiplicative
  | _ => fun _ => none

/-- The levels of binary operators. -/
def binaryLevels : List Level := [.disjunction, .conjunction, .comparison, .additive, .multiplicative]

/-- The levels whose rule goes on behind an operand. -/
def openLevels : List Level := binaryLevels ++ [.test, .filter, .call]

/-- How the rule of a level goes on once it has taken an operand. -/
def resume (n : Nat) (expr : Reader Expr) (p : Level) (j k : Nat) (e : Expr) : Reader Expr :=
  match p with
  | .test => tests j e
  | .filter => filters expr j e
  | .call => do calls expr k (← members expr j e)
  | .sequence | .condition | .negation | .primary => pure e
  | p => operations (operatorAt? p) (readAt n expr p.next) j e

variable {n j k : Nat} {expr : Reader Expr} {p : Level} {e : Expr} {ts rest : List Token}

theorem readAt_eq_resume (hp : p ∈ openLevels) :
    readAt n expr p = (readAt n expr p.next >>= resume n expr p n n) := by
  cases p <;> first | rfl | exact absurd hp (by decide)

/-! ### Where a rule stops -/

theorem operatorAt?_eq_none (h : p.extends (next ts) = false) : operatorAt? p ts = none := by
  cases ts with
  | nil => cases p <;> rfl
  | cons t ts =>
    rw [next_cons] at h
    cases p <;> simp_all [Level.extends, operatorAt?, wordOp?, kindOp?, comparisonOp?]

theorem operations_of_none {op? : List Token → Option (Word × List Token)} {operand : Reader Expr}
    (h : op? rest = none) : operations op? operand j e rest = .ok (e, rest) := by
  cases j with
  | zero => rfl
  | succ j =>
    rw [operations]
    dsimp only
    rw [h]

theorem operations_of_some {op? : List Token → Option (Word × List Token)} {operand : Reader Expr}
    {op : Word} {right : Expr} {us : List Token} (h : op? ts = some (op, us))
    (hright : operand us = .ok (right, rest)) :
    operations op? operand (j + 1) e ts = operations op? operand j (.binary e op right) rest := by
  rw [operations]
  dsimp only
  rw [h]
  exact bind_eq hright

theorem tests_of_extends (h : Level.test.extends (next rest) = false) :
    tests j e rest = .ok (e, rest) := by
  cases j with
  | zero => rfl
  | succ j => rw [tests, bind_eq (acceptWord_of_false h)]; rfl

theorem filters_of_extends (h : Level.filter.extends (next rest) = false) :
    filters expr j e rest = .ok (e, rest) := by
  cases j with
  | zero => rfl
  | succ j => rw [filters, bind_eq (accept_of_ne (beq_eq_false_iff_ne.mp h))]; rfl

theorem members_of_ne (hsquare : (next rest).kind ≠ .openSquare) (hdot : (next rest).kind ≠ .dot) :
    members expr j e rest = .ok (e, rest) := by
  cases j with
  | zero => rfl
  | succ j => rw [members, bind_eq (accept_of_ne hsquare), if_neg (by simp),
      bind_eq (accept_of_ne hdot)]; rfl

theorem calls_of_ne (hparen : (next rest).kind ≠ .openParen) :
    calls expr j e rest = .ok (e, rest) := by
  cases j with
  | zero => rfl
  | succ j => rw [calls, check_bind, beq_false_of_ne hparen]; rfl

theorem resume_of_extends (h : p.extends (next rest) = false) :
    resume n expr p j k e rest = .ok (e, rest) := by
  cases p with
  | test => exact tests_of_extends h
  | filter => exact filters_of_extends h
  | call =>
    simp only [Level.extends, Bool.or_eq_false_iff, beq_eq_false_iff_ne] at h
    obtain ⟨⟨hparen, hsquare⟩, hdot⟩ := h
    rw [resume, bind_eq (members_of_ne hsquare hdot)]
    exact calls_of_ne hparen
  | sequence | condition | negation | primary => rfl
  | disjunction | conjunction | comparison | additive | multiplicative =>
    exact operations_of_none (operatorAt?_eq_none h)

/-! ### Operands at the left -/

/-- The tokens that have to stand behind an operand that is taken whole. -/
def Level.inner : Level → Level
  | .condition => .condition
  | p => p.next

/-- The count `j` is enough for the tokens that are left, and no larger than it can be. -/
def Enough (n : Nat) (rest : List Token) (j : Nat) : Prop := rest.length ≤ j ∧ j ≤ n + 1

/-- The rule of the level `p` takes `ts` for `e` and goes on behind it. -/
def Chains (n : Nat) (expr : Reader Expr) (p : Level) (ts : List Token) (e : Expr) : Prop :=
  ∀ rest, Stops p.inner rest → (ts ++ rest).length ≤ n + 1 →
    ∃ j k, Enough n rest j ∧ Enough n rest k ∧
      readAt n expr p (ts ++ rest) = resume n expr p j k e rest

theorem Level.le_inner (p : Level) : p ≤ p.inner := by
  cases p <;> decide

theorem Chains.reads (h : Chains n expr p ts e) :
    Reads (readAt n expr p) (n + 1) (Stops p) ts e := by
  intro rest hrest hlength
  obtain ⟨j, k, -, -, heq⟩ := h rest (hrest.mono p.le_inner) hlength
  rw [heq, resume_of_extends (hrest p (Level.le_refl _))]

theorem Chains.of_reads (hp : p ∈ [Level.condition, .negation, .primary])
    (h : Reads (readAt n expr p) (n + 1) (Stops p.inner) ts e) : Chains n expr p ts e := by
  intro rest hrest hlength
  have henough : Enough n rest rest.length := by
    rw [List.length_append] at hlength
    exact ⟨Nat.le_refl _, by omega⟩
  refine ⟨_, _, henough, henough, (h rest hrest hlength).trans ?_⟩
  simp only [List.mem_cons, List.not_mem_nil, or_false] at hp
  rcases hp with rfl | rfl | rfl <;> rfl

/-- What a rule takes, the rule of the next looser level takes as its first operand. -/
theorem Chains.step (hp : Level.condition ≤ p) (hts : Begins (p = .negation) ts)
    (h : Chains n expr p.next ts e) : Chains n expr p ts e := by
  by_cases hopen : p ∈ openLevels
  · intro rest hrest hlength
    have hinner : p.inner = p.next := by
      cases p <;> first | rfl | exact absurd hopen (by decide)
    rw [hinner] at hrest
    have hpos := List.length_pos_iff.mpr hts.ne_nil
    rw [List.length_append] at hlength
    refine ⟨n, n, ⟨by omega, Nat.le_succ n⟩, ⟨by omega, Nat.le_succ n⟩, ?_⟩
    rw [readAt_eq_resume hopen, bind_eq (h.reads rest hrest (by rwa [List.length_append]))]
  cases p with
  | sequence => exact absurd hp (by decide)
  | condition =>
    refine .of_reads (by decide) fun rest hrest hlength => ?_
    have hif : isName "if" (next rest) = false := by
      have := hrest .condition (Level.le_refl _)
      simp only [Level.extends, Bool.or_eq_false_iff] at this
      exact this.1
    have hvalue : disjunction n expr (ts ++ rest) = .ok (e, rest) :=
      h.reads rest (hrest.mono (by decide)) hlength
    show condition n expr (ts ++ rest) = _
    rw [condition, bind_eq hvalue, bind_eq (acceptWord_of_false hif)]
    rfl
  | negation =>
    refine .of_reads (by decide) fun rest hrest hlength => ?_
    obtain ⟨t, us, rfl, -, hnot⟩ := hts
    show negation n expr (t :: us ++ rest) = _
    rw [List.cons_append, negation, hnot rfl, if_neg (by simp)]
    exact h.reads rest hrest hlength
  | primary => exact h
  | _ => exact absurd (by decide) hopen

theorem Level.eq_or_next_le {q : Level} (h : p ≤ q) :
    p = q ∨ p.next ≤ q ∧ q.rank - p.next.rank < q.rank - p.rank := by
  cases p <;> cases q <;> first | exact .inl rfl | exact .inr (by decide) | exact absurd h (by decide)

/-- An expression that some rule takes is taken by the rules of all looser levels. -/
theorem Chains.loosen {p q : Level} (hp : Level.condition ≤ p) (hpq : p ≤ q)
    (hts : Begins (p ≤ .negation ∧ Level.comparison ≤ q) ts) (h : Chains n expr q ts e) :
    Chains n expr p ts e := by
  rcases Level.eq_or_next_le hpq with rfl | ⟨hnext, hlt⟩
  · exact h
  · have hlooser : Chains n expr p.next ts e := by
      refine Chains.loosen (Level.le_trans hp p.le_next) hnext (hts.mono ?_) h
      exact fun ⟨hle, hq⟩ => ⟨Level.le_trans p.le_next hle, hq⟩
    refine .step hp (hts.mono ?_) hlooser
    rintro rfl
    exact ⟨Level.le_refl _, hnext⟩
termination_by q.rank - p.rank

/-- The rule takes a longer expression whose left operand is `e`, if what it does with the tokens
`us` behind the operand makes `e'` of it. -/
theorem Chains.extend {us : List Token} {e' : Expr} (h : Chains n expr p ts e) (hne : us ≠ [])
    (hstops : Stops p.inner us)
    (hstep : ∀ rest j k, Stops p.inner rest → (us ++ rest).length ≤ j + 1 → j ≤ n →
      (us ++ rest).length ≤ k + 1 → k ≤ n → ∃ j' k', Enough n rest j' ∧ Enough n rest k' ∧
        resume n expr p (j + 1) (k + 1) e (us ++ rest) = resume n expr p j' k' e' rest) :
    Chains n expr p (ts ++ us) e' := by
  intro rest hrest hlength
  rw [List.append_assoc] at hlength ⊢
  have hnext : Stops p.inner (us ++ rest) := by
    obtain ⟨t, us, rfl⟩ := List.exists_cons_of_ne_nil hne
    exact hstops
  obtain ⟨j, k, ⟨hj, hjn⟩, ⟨hk, hkn⟩, hleft⟩ := h _ hnext hlength
  have hpos := List.length_pos_iff.mpr hne
  rw [List.length_append] at hj hk
  obtain ⟨j, rfl⟩ : ∃ i, j = i + 1 := ⟨j - 1, by omega⟩
  obtain ⟨k, rfl⟩ : ∃ i, k = i + 1 := ⟨k - 1, by omega⟩
  rw [hleft]
  exact hstep rest j k hrest (by rwa [List.length_append]) (by omega)
    (by rwa [List.length_append]) (by omega)

/-- At every place where an expression may stand, the rule of the place takes it. -/
def ChainsAll (n : Nat) (expr : Reader Expr) (e : Expr) : Prop :=
  ∀ (s : Style) (k : Nat) (p : Level), .condition ≤ p → p ≤ e.level ∨ 0 < k →
    Chains n expr p (wrap k (e.body s)) e

theorem ChainsAll.print (h : ChainsAll n expr e) (hp : Level.condition ≤ p) (s : Style) :
    Chains n expr p (e.print s p) e := by
  refine h s _ p hp ?_
  split_ifs with hle
  · exact .inl hle
  · exact .inr (Nat.succ_pos _)

/-! ### One kind of expression after the other -/

theorem chains_parens (h : ReadsAll expr n .condition) (he : e.wellFormed) (s : Style) (k : Nat) :
    Chains n expr .primary (wrap (k + 1) (e.body s)) e := by
  refine .of_reads (by decide) fun rest hrest hlength => ?_
  have hwrap : wrap (k + 1) (e.body s) ++ rest =
      mark .openParen :: (wrap k (e.body s) ++ mark .closeParen :: rest) := by
    simp [wrap]
  rw [hwrap, List.length_cons] at hlength
  have hinner := sequence_reads h s k e he (.inl (Nat.zero_le _)) _
    (stops_mark (by decide) _ rest) (Nat.le_of_succ_le_succ hlength)
  show primary n expr (wrap (k + 1) (e.body s) ++ rest) = _
  rw [hwrap, primary, advance_bind, next_cons]
  exact (bind_eq hinner).trans (bind_eq expect_mark)

theorem ChainsAll.of_body (h : ReadsAll expr n .condition) (he : e.wellFormed)
    (hbody : ∀ s, Level.condition ≤ e.level → Chains n expr e.level (e.body s) e) :
    ChainsAll n expr e := by
  intro s k p hp hk
  cases k with
  | zero =>
    have hle := hk.resolve_right (Nat.lt_irrefl 0)
    exact (hbody s (Level.le_trans hp hle)).loosen hp hle ((body_begins s e he).mono And.right)
  | succ k =>
    refine (chains_parens h he s k).loosen hp ?_ (begins_of_kind (by decide) (by decide))
    cases p <;> decide

/-- An expression of one token. -/
theorem chains_leaf {kind : TokenKind} {w : Word} (hlevel : e.level = .primary)
    (hread : ∀ rest, Level.primary.extends (next rest) = false →
      primary n expr (leaf kind w :: rest) = .ok (e, rest)) :
    Chains n expr e.level [leaf kind w] e := by
  rw [hlevel]
  refine .of_reads (by decide) fun rest hrest _ => ?_
  exact hread rest (hrest .primary (Level.le_refl _))

theorem primary_name {w : Word} (hw : isPlainName w.text) :
    primary n expr (leaf .name w :: rest) = .ok (.name w, rest) := by
  simp only [isPlainName, Bool.and_eq_true, Bool.not_eq_true'] at hw
  show Except.ok (nameExpr w, rest) = _
  rw [nameExpr, hw.1.1, hw.1.2]
  rfl

theorem joinStrings_of_extends (h : Level.primary.extends (next rest) = false) :
    joinStrings rest = ("", rest) := by
  cases rest with
  | nil => rfl
  | cons t rest =>
    have hkind : (t.kind == .string) = false := h
    rw [joinStrings, hkind]
    rfl

theorem chains_array (h : ReadsAll expr n .condition) {es : List Expr}
    (hes : Expr.allWellFormed es) (s : Style) :
    Chains n expr .primary ((Expr.array es).body s) (.array es) := by
  refine .of_reads (by decide) fun rest hrest hlength => ?_
  have hbody : (Expr.array es).body s ++ rest =
      mark .openSquare :: (separated (Expr.bodies s 0 es) ++ mark .closeSquare :: rest) := by
    simp [Expr.body]
  rw [hbody, List.length_cons] at hlength
  have hitems := items_separated (bodies_reads h s 0 es hes) (stops_of_comma_or_close (by decide))
    (by decide) mark_kind (Nat.le_of_succ_le_succ hlength) (Nat.le_refl n)
  show primary n expr ((Expr.array es).body s ++ rest) = _
  rw [hbody, primary, advance_bind, next_cons]
  exact (bind_eq hitems).trans (bind_eq expect_mark)

theorem chains_object (h : ReadsAll expr n .condition) {entries : List (Expr × Expr)}
    (hentries : Expr.entriesWellFormed entries) (s : Style) :
    Chains n expr .primary ((Expr.object entries).body s) (.object entries) := by
  refine .of_reads (by decide) fun rest hrest hlength => ?_
  have hbody : (Expr.object entries).body s ++ rest =
      mark .openCurly :: (separated (Expr.entryBodies s 0 entries) ++ mark .closeCurly :: rest) := by
    simp [Expr.body]
  rw [hbody, List.length_cons] at hlength
  have hitems := items_separated (entryBodies_reads h s 0 entries hentries)
    (stops_of_comma_or_close (by decide)) (by decide) mark_kind (Nat.le_of_succ_le_succ hlength)
    (Nat.le_refl n)
  show primary n expr ((Expr.object entries).body s ++ rest) = _
  rw [hbody, primary, advance_bind, next_cons]
  exact (bind_eq hitems).trans (bind_eq expect_mark)

theorem Stops.negation (h : Stops .comparison ts) : Stops .negation ts := by
  intro q hq
  rcases Level.eq_or_next_le hq with rfl | ⟨hnext, -⟩
  · rfl
  · exact h q hnext

theorem chains_unary {op : Word} (hop : op.text = "not") (he : ChainsAll n expr e) (s : Style) :
    Chains n expr .negation ((Expr.unary op e).body s) (.unary op e) := by
  refine .of_reads (by decide) fun rest hrest hlength => ?_
  have hoperand := (he.print (by decide) (s.child 0)).reads rest hrest.negation
    (Nat.le_of_succ_le hlength)
  show negation n expr (leaf .name op :: (e.print (s.child 0) .negation ++ rest)) = _
  have hnot : isName "not" (leaf .name op) = true := by simp [isName, leaf, hop]
  have hoperand : negation n expr (e.print (s.child 0) .negation ++ rest) = .ok (e, rest) := hoperand
  rw [negation, hnot, if_pos rfl, hoperand]
  rfl

/-- The tokens of a binary operator are an operator of its level and of no tighter one. -/
theorem operatorTokens_spec {op : Word} (hop : binaryOperators.contains op.text) :
    operatorLevel op.text ∈ binaryLevels ∧ 0 < (operatorTokens op).length ∧
      ∀ us, operatorAt? (operatorLevel op.text) (operatorTokens op ++ us) = some (op, us) ∧
        Stops (operatorLevel op.text).next (operatorTokens op ++ us) := by
  obtain ⟨text, pos⟩ := op
  have hmem : text ∈ binaryOperators := List.contains_iff_mem.mp hop
  simp only [binaryOperators, List.mem_cons, List.not_mem_nil, or_false] at hmem
  dsimp only
  rcases hmem with rfl | rfl | rfl | rfl | rfl | rfl | rfl | rfl | rfl | rfl | rfl | rfl | rfl | rfl |
    rfl | rfl <;> refine ⟨by decide, Nat.succ_pos _, fun us => ⟨rfl, fun q hq => ?_⟩⟩ <;>
    cases q <;> first | rfl | exact absurd hq (by decide)

theorem chains_binary {l r : Expr} {op : Word} (hop : binaryOperators.contains op.text)
    (hl : ChainsAll n expr l) (hr : ChainsAll n expr r) (s : Style) :
    Chains n expr (operatorLevel op.text) ((Expr.binary l op r).body s) (.binary l op r) := by
  obtain ⟨hlevel, hpos, hspec⟩ := operatorTokens_spec hop
  have hbody : (Expr.binary l op r).body s = l.print (s.child 0) (operatorLevel op.text) ++
    (operatorTokens op ++ r.print (s.child 1) (operatorLevel op.text).next) := rfl
  rw [hbody]
  generalize operatorLevel op.text = p at *
  have hp : Level.condition ≤ p ∧ p.inner = p.next ∧ ∀ j k e,
      resume n expr p j k e = operations (operatorAt? p) (readAt n expr p.next) j e := by
    cases p <;> first | exact ⟨by decide, rfl, fun _ _ _ => rfl⟩ | exact absurd hlevel (by decide)
  obtain ⟨hp, hinner, hresume⟩ := hp
  refine (hl.print hp (s.child 0)).extend ?_ ?_ fun rest j k hrest hj hjn hk hkn => ?_
  · exact List.append_ne_nil_of_left_ne_nil (List.length_pos_iff.mp hpos) _
  · rw [hinner]
    exact (hspec _).2
  · rw [hinner] at hrest
    simp only [List.length_append] at hj hk
    have hright := (hr.print (Level.le_trans hp p.le_next) (s.child 1)).reads rest hrest
      (by rw [List.length_append]; omega)
    refine ⟨j, k + 1, ⟨by omega, by omega⟩, ⟨by omega, by omega⟩, ?_⟩
    rw [List.append_assoc, hresume, hresume, operations_of_some (hspec _).1 hright]

theorem tests_is {negated : Bool} {w : Word} (hw : negated || w.text != "not") :
    tests (j + 1) e (keyword "is" :: ((if negated then [keyword "not"] else []) ++
      leaf .name w :: rest)) = tests j (.test e negated w) rest := by
  rw [tests, bind_eq (acceptWord_of_true rfl), if_pos rfl, List.tail_cons]
  cases negated with
  | true =>
    show (acceptWord "not" >>= _) (keyword "not" :: leaf .name w :: rest) = _
    rw [bind_eq (acceptWord_of_true rfl), List.tail_cons, bind_eq nameOr_eq]
  | false =>
    have hnot : isName "not" (leaf .name w) = false := by simpa [isName, leaf] using hw
    show (acceptWord "not" >>= _) (leaf .name w :: rest) = _
    rw [bind_eq (acceptWord_of_false hnot), bind_eq nameOr_eq]

theorem chains_test {negated : Bool} {w : Word} (hw : negated || w.text != "not")
    (he : ChainsAll n expr e) (s : Style) :
    Chains n expr .test ((Expr.test e negated w).body s) (.test e negated w) := by
  refine (he.print (p := .test) (by decide) (s.child 0)).extend (List.cons_ne_nil _ _) ?_ ?_
  · intro q hq
    cases q <;> first | rfl | exact absurd hq (by decide)
  · intro rest j k hrest hj hjn hk hkn
    rw [List.cons_append, List.append_assoc] at hj ⊢
    simp only [List.length_cons, List.length_append] at hj
    refine ⟨j, j, ⟨by omega, by omega⟩, ⟨by omega, by omega⟩, ?_⟩
    exact tests_is hw

theorem members_dot {w : Word} : members expr (j + 1) e (mark .dot :: leaf .name w :: rest) =
    members expr j (.member e w) rest := by
  rw [members, bind_eq (accept_of_ne (by simp)), if_neg (by simp), bind_eq accept_mark, if_pos rfl,
    bind_eq nameOr_eq]

theorem members_openSquare {object : Expr}
    (h : subscript j expr e ts = .ok (object, mark .closeSquare :: rest)) :
    members expr (j + 1) e (mark .openSquare :: ts) = members expr j object rest := by
  rw [members, bind_eq accept_mark, if_pos rfl, bind_eq h, bind_eq expect_mark]

theorem resume_call_eq {object : Expr} (h : members expr (j + 1) e ts = members expr j object rest) :
    resume n expr .call (j + 1) k e ts = resume n expr .call j k object rest := by
  show (members expr (j + 1) e ts >>= _) = (members expr j object rest >>= _)
  rw [h]

theorem stops_primary {t : Token} (h : (t.kind == .string) = false) (us : List Token) :
    Stops .primary (t :: us) := by
  intro q hq
  cases q <;> first | exact h | exact absurd hq (by decide)

theorem chains_member (w : Word) (he : ChainsAll n expr e) (s : Style) :
    Chains n expr .call ((Expr.member e w).body s) (.member e w) := by
  refine (he.print (p := .call) (by decide) (s.child 0)).extend (List.cons_ne_nil _ _) ?_ ?_
  · exact stops_primary rfl _
  · intro rest j k hrest hj hjn hk hkn
    simp only [List.length_append, List.length_cons] at hj hk
    refine ⟨j, k + 1, ⟨by omega, by omega⟩, ⟨by omega, by omega⟩, ?_⟩
    exact resume_call_eq members_dot

theorem chains_index (h : ReadsAll expr n .condition) {key : Expr} (hkey : key.wellFormed)
    (he : ChainsAll n expr e) (s : Style) :
    Chains n expr .call ((Expr.index e key).body s) (.index e key) := by
  refine (he.print (p := .call) (by decide) (s.child 0)).extend (List.cons_ne_nil _ _) ?_ ?_
  · exact stops_primary rfl _
  · intro rest j k hrest hj hjn hk hkn
    have hus : mark .openSquare :: (key.print (s.child 1) .condition ++ [mark .closeSquare]) ++ rest =
        mark .openSquare :: (key.print (s.child 1) .condition ++ mark .closeSquare :: rest) := by
      simp
    change (mark .openSquare :: (key.print (s.child 1) .condition ++ _) ++ rest).length ≤ _ at hj hk
    rw [hus, List.length_cons] at hj hk
    have hlonger := hj
    simp only [List.length_append, List.length_cons] at hk hlonger
    refine ⟨j, k + 1, ⟨by omega, by omega⟩, ⟨by omega, by omega⟩, ?_⟩
    refine Eq.trans ?_ (resume_call_eq (members_openSquare
      (subscript_index h e hkey (Nat.le_of_succ_le_succ hj) hjn)))
    exact congrArg _ hus

theorem chains_slice (h : ReadsAll expr n .condition) {a b c : Option Expr}
    (ha : Expr.optionWellFormed a) (hb : Expr.optionWellFormed b) (hc : Expr.optionWellFormed c)
    (he : ChainsAll n expr e) (s : Style) :
    Chains n expr .call ((Expr.slice e a b c).body s) (.slice e a b c) := by
  refine (he.print (p := .call) (by decide) (s.child 0)).extend (List.cons_ne_nil _ _) ?_ ?_
  · exact stops_primary rfl _
  · intro rest j k hrest hj hjn hk hkn
    simp only [List.cons_append, List.append_assoc, List.nil_append] at hj hk ⊢
    rw [List.length_cons] at hj
    have hlonger := hj
    simp only [List.length_append, List.length_cons] at hk hlonger
    refine ⟨j, k + 1, ⟨by omega, by omega⟩, ⟨by omega, by omega⟩, ?_⟩
    exact resume_call_eq (members_openSquare
      (subscript_slice h e ha hb hc (Nat.le_of_succ_le_succ hj) hjn))

theorem calls_printList (h : ReadsAll expr n .condition) {args : List Arg} {i : Nat} {s : Style}
    (hargs : Arg.allWellFormed args) (hordered : ordered false args)
    (hlength : (Arg.printList s i args ++ rest).length ≤ k + 1) (hk : k ≤ n) :
    calls expr (k + 1) e (Arg.printList s i args ++ rest) =
      resume n expr .call k k (.call e args) rest := by
  rw [calls, check_bind]
  show (argumentList k expr >>= _) (Arg.printList s i args ++ rest) = _
  rw [bind_eq (argumentList_printList h hargs hordered hlength hk)]
  rfl

theorem chains_call (h : ReadsAll expr n .condition) {args : List Arg}
    (hargs : Arg.allWellFormed args) (hordered : ordered false args)
    (he : ChainsAll n expr e) (s : Style) :
    Chains n expr .call ((Expr.call e args).body s) (.call e args) := by
  have hbody : (Expr.call e args).body s = e.print (s.child 0) .call ++ Arg.printList s 1 args := rfl
  rw [hbody]
  refine (he.print (p := .call) (by decide) (s.child 0)).extend (List.cons_ne_nil _ _) ?_ ?_
  · exact stops_primary rfl _
  · intro rest j k hrest hj hjn hk hkn
    have hparens : 0 < (Arg.printList s 1 args).length := Nat.succ_pos _
    have hmembers : members expr (j + 1) e (Arg.printList s 1 args ++ rest) =
        .ok (e, Arg.printList s 1 args ++ rest) :=
      members_of_ne (by simp [Arg.printList]) (by simp [Arg.printList])
    have hlonger := hk
    rw [List.length_append] at hlonger
    refine ⟨k, k, ⟨by omega, by omega⟩, ⟨by omega, by omega⟩, ?_⟩
    rw [resume, bind_eq hmembers]
    exact calls_printList h hargs hordered hk hkn

/-- A filter behind its name: the arguments if it is called. -/
theorem calls_filterBody (h : ReadsAll expr n .condition) {f : Expr} {s : Style} (hf : f.isFilter)
    (hrest : Level.call.extends (next rest) = false) (hj : j ≤ n)
    (hlength : (f.filterBody s ++ rest).length ≤ j + 1) :
    ∃ us, f.filterBody s ++ rest = leaf .name f.filterName :: us ∧
      calls expr j (.name f.filterName) us = .ok (f, rest) := by
  match f, hf with
  | .name w, _ =>
    refine ⟨rest, rfl, calls_of_ne ?_⟩
    simp only [Level.extends, Bool.or_eq_false_iff, beq_eq_false_iff_ne] at hrest
    exact hrest.1.1
  | .call (.name w) args, hf =>
    simp only [Expr.isFilter, Bool.and_eq_true] at hf
    refine ⟨Arg.printList s 1 args ++ rest, rfl, ?_⟩
    change (leaf .name w :: (Arg.printList s 1 args ++ rest)).length ≤ j + 1 at hlength
    rw [List.length_cons] at hlength
    have hparens : 0 < (Arg.printList s 1 args).length := Nat.succ_pos _
    have hpos : 0 < (Arg.printList s 1 args ++ rest).length := by
      rw [List.length_append]
      omega
    obtain ⟨j, rfl⟩ : ∃ i, j = i + 1 := ⟨j - 1, by omega⟩
    rw [calls_printList h hf.2 hf.1 (by omega) (by omega)]
    exact resume_of_extends hrest

theorem chains_filter (h : ReadsAll expr n .condition) {f : Expr} (hf : f.isFilter)
    (he : ChainsAll n expr e) (s : Style) :
    Chains n expr .filter ((Expr.filter e f).body s) (.filter e f) := by
  refine (he.print (p := .filter) (by decide) (s.child 0)).extend (List.cons_ne_nil _ _) ?_ ?_
  · intro q hq
    cases q <;> first | rfl | exact absurd hq (by decide)
  · intro rest j k hrest hj hjn hk hkn
    rw [List.cons_append, List.length_cons] at hj hk
    obtain ⟨us, hbody, hcalls⟩ := calls_filterBody h hf (hrest .call (Level.le_refl _)) hjn
      (s := s.child 1) (by omega)
    rw [List.length_append] at hj hk
    refine ⟨j, k + 1, ⟨by omega, by omega⟩, ⟨by omega, by omega⟩, ?_⟩
    show filters expr (j + 1) e (mark .pipe :: (f.filterBody (s.child 1) ++ rest)) =
      filters expr j (.filter e f) rest
    rw [filters, bind_eq accept_mark, if_pos rfl, hbody, bind_eq nameOr_eq, bind_eq hcalls]

/-- No operator of a disjunction stands before such a word. -/
theorem stops_keyword {word : String} (h : word ∉ ["or", "and", "not", "in", "is"])
    (us : List Token) : Stops .disjunction (keyword word :: us) := by
  simp only [List.mem_cons, List.not_mem_nil, or_false, not_or] at h
  intro q hq
  cases q <;> first | exact absurd hq (by decide) | simp [Level.extends, isName, keyword, h]

theorem Stops.not_isName_else (h : Stops .condition ts) : isName "else" (next ts) = false := by
  have := h .condition (Level.le_refl _)
  simp only [Level.extends, Bool.or_eq_false_iff] at this
  exact this.2

theorem ChainsAll.disjunction_eq (h : ChainsAll n expr e) (s : Style)
    (hrest : Stops .disjunction rest) (hlength : (e.print s .disjunction ++ rest).length ≤ n + 1) :
    disjunction n expr (e.print s .disjunction ++ rest) = .ok (e, rest) :=
  (h.print (by decide) s).reads rest hrest hlength

theorem chains_select {t : Expr} (he : ChainsAll n expr e) (ht : ChainsAll n expr t) (s : Style) :
    Chains n expr .condition ((Expr.select e t).body s) (.select e t) := by
  refine .of_reads (by decide) fun rest hrest hlength => ?_
  have hbody : (Expr.select e t).body s ++ rest = e.print (s.child 0) .disjunction ++
      keyword "if" :: (t.print (s.child 1) .disjunction ++ rest) :=
    List.append_assoc ..
  rw [hbody] at hlength ⊢
  have hlonger := hlength
  rw [List.length_append, List.length_cons] at hlonger
  have hvalue := he.disjunction_eq (s.child 0) (stops_keyword (by decide) _) hlength
  have htest := ht.disjunction_eq (s.child 1) (hrest.mono (by decide)) (by omega)
  show condition n expr _ = _
  rw [condition, bind_eq hvalue, bind_eq (acceptWord_of_true rfl), if_pos rfl, List.tail_cons,
    bind_eq htest, bind_eq (acceptWord_of_false hrest.not_isName_else)]
  rfl

theorem chains_ternary (h : ReadsAll expr n .condition) {t y : Expr} (he : e.wellFormed)
    (ht : ChainsAll n expr t) (hy : ChainsAll n expr y) (s : Style) :
    Chains n expr .condition ((Expr.ternary t y e).body s) (.ternary t y e) := by
  refine .of_reads (by decide) fun rest hrest hlength => ?_
  have hbody : (Expr.ternary t y e).body s ++ rest = y.print (s.child 1) .disjunction ++
      keyword "if" :: (t.print (s.child 0) .disjunction ++ keyword "else" ::
        (e.print (s.child 2) .condition ++ rest)) := by
    simp [Expr.body, Expr.print]
  rw [hbody] at hlength ⊢
  have hlonger := hlength
  simp only [List.length_append, List.length_cons] at hlonger
  have hvalue := hy.disjunction_eq (s.child 1) (stops_keyword (by decide) _) hlength
  have helse : "else" ∉ ["or", "and", "not", "in", "is"] := by decide
  have htest := ht.disjunction_eq (s.child 0)
    (stops_keyword helse (e.print (s.child 2) .condition ++ rest))
    (by simp only [List.length_append, List.length_cons]; omega)
  have hno := h.print (s.child 2) he rest hrest (by rw [List.length_append]; omega)
  show condition n expr _ = _
  rw [condition, bind_eq hvalue, bind_eq (acceptWord_of_true rfl), if_pos rfl, List.tail_cons,
    bind_eq htest, bind_eq (acceptWord_of_true rfl), if_pos rfl, List.tail_cons, bind_eq hno]
  rfl

/-- Where `expr` reads whatever stands in brackets, the rules read every expression around it. -/
theorem chainsAll (h : ReadsAll expr n .condition) : (e : Expr) → e.wellFormed → ChainsAll n expr e
  | .name w, he => .of_body h he fun _ _ => chains_leaf rfl fun _ _ => primary_name he
  | .bool w, he => .of_body h he fun _ _ => chains_leaf rfl fun rest _ => by
    have hw : isBoolName w.text := he
    show Except.ok (nameExpr w, rest) = _
    rw [nameExpr, hw]
    rfl
  | .null w, he => .of_body h he fun _ _ => chains_leaf rfl fun rest _ => by
    have hw : isNullName w.text := he
    have hbool : isBoolName w.text = false := by
      simp only [isNullName, Bool.or_eq_true, beq_iff_eq] at hw
      rcases hw with hw | hw <;> rw [hw] <;> rfl
    show Except.ok (nameExpr w, rest) = _
    rw [nameExpr, hbool, hw]
    rfl
  | .int w, he => .of_body h he fun _ _ => chains_leaf rfl fun rest _ => by
    simp only [Expr.wellFormed, Bool.not_eq_true'] at he
    show Except.ok (if w.text.toList.contains '.' then Expr.float w else .int w, rest) = _
    rw [he]
    rfl
  | .float w, he => .of_body h he fun _ _ => chains_leaf rfl fun rest _ => by
    simp only [Expr.wellFormed] at he
    show Except.ok (if w.text.toList.contains '.' then Expr.float w else .int w, rest) = _
    rw [he]
    rfl
  | .string w, he => .of_body h he fun _ _ => chains_leaf rfl fun rest hrest => by
    show Except.ok (Expr.string ⟨w.text ++ (joinStrings rest).1, w.pos⟩, (joinStrings rest).2) = _
    rw [joinStrings_of_extends hrest, String.append_empty]
  | .array es, he => .of_body h he fun s _ => chains_array h he s
  | .tuple es, he => .of_body h he fun _ hle =>
    absurd hle (show ¬ Level.condition ≤ Level.sequence by decide)
  | .object entries, he => .of_body h he fun s _ => chains_object h he s
  | .binary l op r, he => .of_body h he fun s _ => by
    simp only [Expr.wellFormed, Bool.and_eq_true] at he
    exact chains_binary he.1 (chainsAll h l he.2.1) (chainsAll h r he.2.2) s
  | .unary op e, he => .of_body h he fun s _ => by
    simp only [Expr.wellFormed, Bool.and_eq_true, beq_iff_eq] at he
    exact chains_unary he.1 (chainsAll h e he.2) s
  | .member e w, he => .of_body h he fun s _ => chains_member w (chainsAll h e he) s
  | .index e key, he => .of_body h he fun s _ => by
    simp only [Expr.wellFormed, Bool.and_eq_true] at he
    exact chains_index h he.2 (chainsAll h e he.1) s
  | .slice e a b c, he => .of_body h he fun s _ => by
    simp only [Expr.wellFormed, Bool.and_eq_true] at he
    exact chains_slice h he.2.1 he.2.2.1 he.2.2.2 (chainsAll h e he.1) s
  | .call e args, he => .of_body h he fun s _ => by
    simp only [Expr.wellFormed, Bool.and_eq_true] at he
    exact chains_call h he.2.2 he.2.1 (chainsAll h e he.1) s
  | .filter e f, he => .of_body h he fun s _ => by
    simp only [Expr.wellFormed, Bool.and_eq_true] at he
    exact chains_filter h he.2 (chainsAll h e he.1) s
  | .test e negated w, he => .of_body h he fun s _ => by
    simp only [Expr.wellFormed, Bool.and_eq_true] at he
    exact chains_test he.2 (chainsAll h e he.1) s
  | .select v t, he => .of_body h he fun s _ => by
    simp only [Expr.wellFormed, Bool.and_eq_true] at he
    exact chains_select (chainsAll h v he.1) (chainsAll h t he.2) s
  | .ternary t y e, he => .of_body h he fun s _ => by
    simp only [Expr.wellFormed, Bool.and_eq_true] at he
    exact chains_ternary h he.2.2 (chainsAll h t he.1) (chainsAll h y he.2.1) s

theorem exprWithin_reads (n : Nat) : ReadsAll (exprWithin n) n .condition := by
  induction n with
  | zero =>
    intro s k e he _ rest _ hlength
    have hne := (wrap_begins s k he).ne_nil
    rw [List.length_append] at hlength
    exact absurd (List.length_eq_zero_iff.mp (by omega)) hne
  | succ n ih =>
    intro s k e he hk
    exact (chainsAll ih e he s k .condition (Level.le_refl _) hk).reads

end ChatTemplate.Grammar
