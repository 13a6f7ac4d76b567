import ChatTemplate.Proofs.Grammar.Print
import Mathlib.Tactic.SplitIfs

/-!
# Readers and what they leave

`Reads item n ends ts a`: in front of any tokens that satisfy `ends`, the reader `item` takes `ts`
for `a` and leaves the rest, as long as no more than `n` tokens are left. A rule of one level takes
an expression of the next tighter level and then resumes (`resume`) with the operators of its own,
so that it stops at a token that none of these levels goes on with (`Stops`).
-/

namespace ChatTemplate.Grammar
open Reader

variable {α β : Type} {item : Reader α} {n m : Nat} {ts rest : List Token} {a : α} {t : Token}

/-- The token that a reader sees next. -/
def next (ts : List Token) : Token := ts.headD .pastEnd

@[simp] theorem next_cons : next (t :: ts) = t := rfl

/-! ### One step of a reader -/

theorem bind_eq {r : Reader α} {f : α → Reader β} (h : r ts = .ok (a, rest)) :
    (r >>= f) ts = f a rest := by
  show (r ts >>= fun p => f p.1 p.2) = _
  rw [h]
  rfl

theorem map_eq {r : Reader α} {f : α → β} (h : r ts = .ok (a, rest)) :
    (f <$> r) ts = .ok (f a, rest) := by
  rw [map_eq_pure_bind, bind_eq h]
  rfl

@[simp] theorem pure_apply : (pure a : Reader α) ts = .ok (a, ts) := rfl

@[simp] theorem peek_bind {f : Token → Reader β} : (peek >>= f) ts = f (next ts) ts := rfl

@[simp] theorem advance_bind {f : Token → Reader β} :
    (advance >>= f) ts = f (next ts) ts.tail := rfl

@[simp] theorem check_bind {kind : TokenKind} {f : Bool → Reader β} :
    (check kind >>= f) ts = f ((next ts).kind == kind) ts := rfl

theorem accept_of_eq {kind : TokenKind} (h : (next ts).kind = kind) :
    accept kind ts = .ok (true, ts.tail) := by
  rw [accept, check_bind, h, beq_self_eq_true, if_pos rfl, advance_bind, pure_apply]

@[simp] theorem mark_kind {kind : TokenKind} : (mark kind).kind = kind := rfl

theorem accept_mark {kind : TokenKind} : accept kind (mark kind :: ts) = .ok (true, ts) :=
  accept_of_eq rfl

theorem accept_of_ne {kind : TokenKind} (h : (next ts).kind ≠ kind) :
    accept kind ts = .ok (false, ts) := by
  rw [accept, check_bind, beq_false_of_ne h]
  rfl

theorem acceptWord_of_true {word : String} (h : isName word (next ts) = true) :
    acceptWord word ts = .ok (true, ts.tail) := by
  rw [acceptWord]
  show (if isName word (next ts) then _ else _ : Reader Bool) ts = _
  rw [h]
  rfl

theorem acceptWord_of_false {word : String} (h : isName word (next ts) = false) :
    acceptWord word ts = .ok (false, ts) := by
  rw [acceptWord]
  show (if isName word (next ts) then _ else _ : Reader Bool) ts = _
  rw [h]
  rfl

theorem expect_eq {kind : TokenKind} {what : String} (h : t.kind = kind) :
    expect kind what (t :: rest) = .ok (t, rest) := by
  rw [expect, check_bind, next_cons, h, beq_self_eq_true]
  rfl

theorem expect_mark {kind : TokenKind} {what : String} :
    expect kind what (mark kind :: rest) = .ok (mark kind, rest) :=
  expect_eq rfl

theorem expectWord_eq {word : String} : expectWord word (keyword word :: rest) =
    .ok (keyword word, rest) := by
  rw [expectWord]
  show (if isName word (keyword word) then _ else _ : Reader Token) _ = _
  rw [if_pos (by simp [isName, keyword])]
  rfl

theorem nameOr_eq {cause : GrammarCause} {w : Word} :
    nameOr cause (leaf .name w :: rest) = .ok (w, rest) := by
  rw [nameOr, check_bind]
  rfl

/-! ### Where a reader stops -/

/-- Does an expression of this level go on with such a token? -/
def Level.extends : Level → Token → Bool
  | .sequence, t => t.kind == .comma
  | .condition, t => isName "if" t || isName "else" t
  | .disjunction, t => isName "or" t
  | .conjunction, t => isName "and" t
  | .negation, _ => false
  | .comparison, t => isName "not" t || isName "in" t || t.kind == .comparison
  | .additive, t => t.kind == .additive
  | .multiplicative, t => t.kind == .multiplicative
  | .test, t => isName "is" t
  | .filter, t => t.kind == .pipe
  | .call, t => t.kind == .openParen || t.kind == .openSquare || t.kind == .dot
  | .primary, t => t.kind == .string

/-- No expression of this level or a tighter one goes on with the tokens. -/
def Stops (p : Level) (ts : List Token) : Prop :=
  ∀ q : Level, p ≤ q → q.extends (next ts) = false

theorem Stops.mono {p q : Level} (h : Stops p ts) (hpq : p ≤ q) : Stops q ts :=
  fun r hr => h r (Nat.le_trans hpq hr)

theorem Level.le_refl (p : Level) : p ≤ p := Nat.le_refl p.rank

theorem Level.le_trans {p q r : Level} (hpq : p ≤ q) (hqr : q ≤ r) : p ≤ r := Nat.le_trans hpq hqr

theorem Level.le_next (p : Level) : p ≤ p.next := by
  cases p <;> decide

theorem condition_le_operatorLevel (op : String) : Level.condition ≤ operatorLevel op := by
  unfold operatorLevel
  split_ifs <;> decide

theorem exists_tuple_of_level {e : Expr} (h : ¬ Level.condition ≤ e.level) :
    ∃ es, e = .tuple es := by
  cases e with
  | tuple es => exact ⟨es, rfl⟩
  | binary l op r => exact absurd (condition_le_operatorLevel op.text) h
  | _ => exact absurd (Nat.le_of_ble_eq_true rfl) h

/-- The classes of the marks that end an expression. -/
def closers : List TokenKind :=
  [.closeStatement, .closeExpression, .closeParen, .closeSquare, .closeCurly, .colon, .equals, .eof]

theorem stops_of_mem_closers (h : (next ts).kind ∈ closers) (p : Level) : Stops p ts := by
  intro q _
  generalize next ts = t at h ⊢
  obtain ⟨kind, value, pos⟩ := t
  simp only [closers, List.mem_cons, List.not_mem_nil, or_false] at h
  rcases h with rfl | rfl | rfl | rfl | rfl | rfl | rfl | rfl <;> cases q <;> rfl

theorem stops_mark {kind : TokenKind} (h : kind ∈ closers) (p : Level) (ts : List Token) :
    Stops p (mark kind :: ts) := by
  refine stops_of_mem_closers ?_ p
  exact h

theorem stops_of_comma (h : (next ts).kind = .comma) : Stops .condition ts := by
  intro q hq
  generalize next ts = t at h ⊢
  obtain ⟨kind, value, pos⟩ := t
  obtain rfl : kind = .comma := h
  cases q <;> first | rfl | exact absurd hq (by decide)

/-! ### Reading -/

/-- In front of tokens that satisfy `ends`, the reader takes `ts` for `a`, where at most `n` tokens
are left. -/
def Reads (item : Reader α) (n : Nat) (ends : List Token → Prop) (ts : List Token) (a : α) : Prop :=
  ∀ rest, ends rest → (ts ++ rest).length ≤ n → item (ts ++ rest) = .ok (a, rest)

/-- The reader takes every expression that stands at a place of the level `p`. -/
def ReadsAll (expr : Reader Expr) (n : Nat) (p : Level) : Prop :=
  ∀ (s : Style) (k : Nat) (e : Expr), e.wellFormed → p ≤ e.level ∨ 0 < k →
    Reads expr n (Stops p) (wrap k (e.body s)) e

theorem Reads.mono {ends ends' : List Token → Prop} (h : Reads item n ends ts a) (hm : m ≤ n)
    (hends : ∀ rest, ends' rest → ends rest) : Reads item m ends' ts a :=
  fun rest hrest hlength => h rest (hends rest hrest) (Nat.le_trans hlength hm)

theorem ReadsAll.print {expr : Reader Expr} {p : Level} (h : ReadsAll expr n p) (s : Style)
    {e : Expr} (he : e.wellFormed) : Reads expr n (Stops p) (e.print s p) e := by
  refine h s _ e he ?_
  split_ifs with hp
  · exact .inl hp
  · exact .inr (Nat.succ_pos _)

/-! ### How printed expressions begin -/

/-- The classes of the tokens that begin an expression. -/
def openers : List TokenKind := [.name, .number, .string, .openParen, .openSquare, .openCurly]

/-- The tokens begin an expression, and one that may not begin with `not` where `tight` holds. -/
def Begins (tight : Prop) (ts : List Token) : Prop :=
  ∃ t us, ts = t :: us ∧ t.kind ∈ openers ∧ (tight → isName "not" t = false)

theorem Begins.mono {tight tight' : Prop} (h : Begins tight ts) (himp : tight' → tight) :
    Begins tight' ts := by
  obtain ⟨t, us, rfl, hkind, ht⟩ := h
  exact ⟨t, us, rfl, hkind, fun htight => ht (himp htight)⟩

theorem Begins.append {tight : Prop} (h : Begins tight ts) (us : List Token) :
    Begins tight (ts ++ us) := by
  obtain ⟨t, vs, rfl, hkind, ht⟩ := h
  exact ⟨t, vs ++ us, rfl, hkind, ht⟩

theorem Begins.ne_nil {tight : Prop} (h : Begins tight ts) : ts ≠ [] := by
  obtain ⟨t, us, rfl, -⟩ := h
  exact List.cons_ne_nil t us

theorem begins_of_kind {tight : Prop} {us : List Token} (h : t.kind ∈ openers)
    (hname : t.kind ≠ .name) : Begins tight (t :: us) :=
  ⟨t, us, rfl, h, fun _ => by simp [isName, hname]⟩

theorem Begins.wrap {tight : Prop} (h : Begins tight ts) (k : Nat) :
    Begins (tight ∨ 0 < k) (wrap k ts) := by
  cases k with
  | zero => exact h.mono (fun h => h.resolve_right (Nat.lt_irrefl 0))
  | succ k => exact begins_of_kind (by decide) (by decide)

theorem Begins.enclose {e : Expr} {s : Style} {p : Level}
    (h : Begins (Level.comparison ≤ e.level) ts) :
    Begins (Level.comparison ≤ p) (s.enclose p e ts) := by
  refine (h.wrap _).mono fun hp => ?_
  split_ifs with hle
  · exact .inl (Level.le_trans hp hle)
  · exact .inr (Nat.succ_pos _)

theorem begins_leaf {tight : Prop} {kind : TokenKind} (w : Word) (hkind : kind ∈ openers)
    (h : kind = .name → w.text ≠ "not") : Begins tight [leaf kind w] :=
  ⟨_, [], rfl, hkind, fun _ => by simpa [isName, leaf] using h⟩

theorem isPlainName.ne_not {w : String} (h : isPlainName w) : w ≠ "not" := by
  simp only [isPlainName, Bool.and_eq_true, bne_iff_ne] at h
  exact h.2

theorem isBoolName.ne_not {w : String} (h : isBoolName w) : w ≠ "not" := by
  rintro rfl
  exact absurd h (by decide)

theorem isNullName.ne_not {w : String} (h : isNullName w) : w ≠ "not" := by
  rintro rfl
  exact absurd h (by decide)

theorem body_begins (s : Style) : (e : Expr) → e.wellFormed →
    Begins (Level.comparison ≤ e.level) (e.body s)
  | .name w, h => begins_leaf w (by decide) fun _ => isPlainName.ne_not h
  | .bool w, h => begins_leaf w (by decide) fun _ => isBoolName.ne_not h
  | .null w, h => begins_leaf w (by decide) fun _ => isNullName.ne_not h
  | .int w, _ | .float w, _ => begins_leaf w (by decide) fun h => absurd h (by decide)
  | .string w, _ => begins_leaf w (by decide) fun h => absurd h (by decide)
  | .array _, _ | .object _, _ => begins_of_kind (by decide) (by decide)
  | .tuple [], h | .tuple [e], h => by simp [Expr.wellFormed] at h
  | .tuple (e :: e' :: es), h => by
    simp only [Expr.wellFormed, Expr.allWellFormed, Bool.and_eq_true] at h
    refine ((body_begins _ e h.2.1).enclose (p := .condition)).append _ |>.mono fun hle => ?_
    exact absurd hle (show ¬ Level.comparison ≤ Level.sequence by decide)
  | .binary l op r, h => by
    simp only [Expr.wellFormed, Bool.and_eq_true] at h
    exact (body_begins _ l h.2.1).enclose.append _
  | .unary op e, h =>
    ⟨_, _, rfl, show TokenKind.name ∈ openers by decide, fun hle =>
      absurd hle (show ¬ Level.comparison ≤ Level.negation by decide)⟩
  | .member e _, h => (body_begins _ e h).enclose.append _ |>.mono fun _ => by decide
  | .index e _, h | .slice e _ _ _, h | .call e _, h | .filter e _, h | .test e _ _, h => by
    simp only [Expr.wellFormed, Bool.and_eq_true] at h
    exact (body_begins _ e h.1).enclose.append _ |>.mono fun _ => by decide
  | .select v _, h => by
    simp only [Expr.wellFormed, Bool.and_eq_true] at h
    refine (body_begins _ v h.1).enclose.append _ |>.mono fun hle => ?_
    exact absurd hle (show ¬ Level.comparison ≤ Level.condition by decide)
  | .ternary _ y _, h => by
    simp only [Expr.wellFormed, Bool.and_eq_true] at h
    refine (body_begins _ y h.2.1).enclose.append _ |>.mono fun hle => ?_
    exact absurd hle (show ¬ Level.comparison ≤ Level.condition by decide)

theorem wrap_begins (s : Style) (k : Nat) {e : Expr} (h : e.wellFormed) :
    Begins (Level.comparison ≤ e.level ∨ 0 < k) (wrap k (e.body s)) :=
  (body_begins s e h).wrap k

theorem print_begins (s : Style) (p : Level) {e : Expr} (h : e.wellFormed) :
    Begins (Level.comparison ≤ p) (e.print s p) :=
  (body_begins s e h).enclose

end ChatTemplate.Grammar
