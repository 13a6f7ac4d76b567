import ChatTemplate.Proofs.Grammar.Faults

/-!
# Expressions hold no comments

`Agrees k n m r r'`: what the reader `r` takes, where at most `n` tokens are left, are at least `k`
tokens that may stand in expressions, and where the comments among the tokens are shed and at most
`m` tokens are left, `r'` takes the same. A reader that meets a comment on its way goes no further
(`Stalled`), and nothing is said of what its fellow does there: whoever reads on behind an
expression refuses the comment. There is one lemma for each step of a reader and one for each rule
of the grammar, whose bounds are free of each other.
-/

namespace ChatTemplate.Grammar
open Reader

variable {α β : Type} {r r' : Reader α} {t : Token} {ts us rest : List Token} {a : α}
  {k n m : Nat} {kind : TokenKind}

/-! ### Tokens without comments -/

/-- The tokens that are no comments. -/
def shed (ts : List Token) : List Token := ts.filter (·.kind != .comment)

theorem shed_comment (h : t.kind = .comment) : shed (t :: ts) = shed ts := by simp [shed, h]

theorem shed_cons (h : t.kind ≠ .comment) : shed (t :: ts) = t :: shed ts := by simp [shed, h]

theorem shed_append : shed (ts ++ us) = shed ts ++ shed us := List.filter_append ..

theorem ne_comment_of_isInner (h : isInner kind) : kind ≠ .comment := by
  rintro rfl
  cases h

/-- The tokens that stand in expressions, whatever becomes of their curly brackets. -/
def exprTokens : Fronts where
  kinds := isInner
  mem ts := ∀ t ∈ ts, isInner t.kind
  nil := by simp
  single h := List.forall_mem_singleton.mpr h
  append h h' := List.forall_mem_append.mpr ⟨h, h'⟩
  ne_eof h t ht hkind := by
    have hinner := h t ht
    rw [hkind] at hinner
    cases hinner

theorem shed_exprTokens (h : exprTokens.mem ts) : shed ts = ts :=
  List.filter_eq_self.mpr fun t ht => bne_iff_ne.mpr (ne_comment_of_isInner (h t ht))

theorem next_shed (h : (next ts).kind ≠ .comment) : next (shed ts) = next ts := by
  cases ts with
  | nil => rfl
  | cons t ts =>
    rw [next_cons] at h
    rw [shed_cons h, next_cons, next_cons]

theorem tail_shed (h : (next ts).kind ≠ .comment) : (shed ts).tail = shed ts.tail := by
  cases ts with
  | nil => rfl
  | cons t ts =>
    rw [next_cons] at h
    rw [shed_cons h, List.tail_cons, List.tail_cons]

/-- A comment comes next, or is seen by one who looks past a `not`. -/
def Stalled (ts : List Token) : Prop :=
  (next ts).kind = .comment ∨ isName "not" (next ts) ∧ (next ts.tail).kind = .comment

theorem Stalled.leads (h : Stalled ts) (hrest : Leads exprTokens ts rest) : Stalled rest := by
  obtain ⟨front, rfl, hfront⟩ := hrest
  match front, h, hfront with
  | [], h, _ => exact h
  | t :: front, .inl h, hfront =>
    exact absurd h (ne_comment_of_isInner (hfront t List.mem_cons_self))
  | [t], .inr h, _ => exact .inl h.2
  | t :: t' :: front, .inr h, hfront =>
    exact absurd h.2 (ne_comment_of_isInner (hfront t' (by simp)))

theorem eq_nil_or_stalled (h : shed ts = []) : ts = [] ∨ Stalled ts := by
  cases ts with
  | nil => exact .inl rfl
  | cons t ts =>
    by_cases ht : t.kind = .comment
    · exact .inr (.inl ht)
    · rw [shed_cons ht] at h
      cases h

/-! ### Two readers -/

/-- Both readers take the same where comments are shed, unless a comment keeps the first from
going on. -/
structure Agrees (k n m : Nat) (r r' : Reader α) : Prop where
  takes : ∀ ts a rest, r ts = .ok (a, rest) →
    ∃ front, ts = front ++ rest ∧ exprTokens.mem front ∧ k ≤ front.length
  same : ∀ ts a rest, r ts = .ok (a, rest) → ts.length ≤ n → (shed ts).length ≤ m →
    Stalled rest ∨ r' (shed ts) = .ok (a, shed rest)

theorem Agrees.leads (h : Agrees k n m r r') (hr : r ts = .ok (a, rest)) :
    Leads exprTokens ts rest := by
  obtain ⟨front, hts, hfront, -⟩ := h.takes ts a rest hr
  exact ⟨front, hts, hfront⟩

theorem Agrees.mono {k' n' m' : Nat} (h : Agrees k n m r r') (hk : k' ≤ k) (hn : n' ≤ n)
    (hm : m' ≤ m) : Agrees k' n' m' r r' where
  takes ts a rest hr := by
    obtain ⟨front, hts, hfront, hlength⟩ := h.takes ts a rest hr
    exact ⟨front, hts, hfront, hk.trans hlength⟩
  same ts a rest hr hts hshed := h.same ts a rest hr (hts.trans hn) (hshed.trans hm)

theorem Agrees.lt (h : Agrees 1 n m r r') (hr : r ts = .ok (a, rest)) :
    rest.length < ts.length := by
  obtain ⟨front, rfl, -, hlength⟩ := h.takes ts a rest hr
  rw [List.length_append]
  omega

theorem Agrees.zero (h : Agrees k n m r r') : Agrees 0 n m r r' :=
  h.mono (Nat.zero_le k) (Nat.le_refl n) (Nat.le_refl m)

theorem Agrees.pred (h : Agrees k n m r r') : Agrees k (n - 1) (m - 1) r r' :=
  h.mono (Nat.le_refl k) (Nat.sub_le n 1) (Nat.sub_le m 1)

/-- What a reader takes that takes none of the tokens. -/
theorem takes_none (ts : List Token) :
    ∃ front, ts = front ++ ts ∧ exprTokens.mem front ∧ 0 ≤ front.length :=
  ⟨[], rfl, exprTokens.nil, Nat.le_refl 0⟩

theorem takes_of_leads (h : Leads exprTokens ts rest) :
    ∃ front, ts = front ++ rest ∧ exprTokens.mem front ∧ 0 ≤ front.length := by
  obtain ⟨front, hts, hfront⟩ := h
  exact ⟨front, hts, hfront, Nat.zero_le _⟩

theorem Careful.leads (h : Careful inner r) (hr : r ts = .ok (a, rest)) :
    Leads exprTokens ts rest := by
  have hts := h (fun _ => False) ts
  rw [hr] at hts
  exact Leads.mono (fun _ => Inner.isInner) hts

theorem not_ok_nil (h : Agrees 1 n m r r') (p : α × List Token) : r [] ≠ .ok p := by
  intro hp
  obtain ⟨front, hts, -, hlength⟩ := h.takes [] p.1 p.2 hp
  rw [(List.append_eq_nil_iff.mp hts.symm).1] at hlength
  cases hlength

/-- Where one of the bounds is zero, all depends on what is read of nothing. -/
theorem Agrees.of_zero (hzero : n = 0 ∨ m = 0)
    (htakes : ∀ ts a rest, r ts = .ok (a, rest) → Leads exprTokens ts rest)
    (hnil : ∀ p, r [] = .ok p → r' [] = .ok p) : Agrees 0 n m r r' where
  takes ts a rest hr := takes_of_leads (htakes ts a rest hr)
  same ts a rest hr hts hshed := by
    have hleads := htakes ts a rest hr
    have hempty : ts = [] ∨ Stalled ts := by
      rcases hzero with rfl | rfl
      · exact .inl (List.length_eq_zero_iff.mp (Nat.le_zero.mp hts))
      · exact eq_nil_or_stalled (List.length_eq_zero_iff.mp (Nat.le_zero.mp hshed))
    rcases hempty with rfl | hstalled
    · obtain ⟨front, hfront, -⟩ := hleads
      obtain rfl : rest = [] := (List.append_eq_nil_iff.mp hfront.symm).2
      exact .inr (hnil _ hr)
    · exact .inl (hstalled.leads hleads)

/-! ### Single steps -/

theorem agrees_pure (a : α) : Agrees 0 n m (pure a) (pure a) where
  takes := by
    rintro ts _ _ ⟨⟩
    exact takes_none ts
  same := by
    rintro ts _ _ ⟨⟩ - -
    exact .inr rfl

theorem agrees_of_fails (h : ∀ ts p, r ts ≠ .ok p) : Agrees k n m r r' :=
  ⟨fun ts _ _ hr => absurd hr (h ts _), fun ts _ _ hr => absurd hr (h ts _)⟩

theorem agrees_failAt {cause : GrammarCause} : Agrees k n m (failAt cause t) r' :=
  agrees_of_fails nofun

theorem agrees_fail {cause : TokenKind → GrammarCause} : Agrees k n m (fail cause) r' :=
  agrees_of_fails nofun

theorem Agrees.bind {f f' : α → Reader β} (h : Agrees k n m r r')
    (hf : ∀ a, Agrees 0 (n - k) (m - k) (f a) (f' a)) : Agrees k n m (r >>= f) (r' >>= f') where
  takes ts b rest hr := by
    obtain ⟨a, us, ha, hb⟩ := bind_eq_ok hr
    obtain ⟨front, rfl, hfront, hlength⟩ := h.takes ts a us ha
    obtain ⟨front', rfl, hfront', -⟩ := (hf a).takes us b rest hb
    refine ⟨front ++ front', (List.append_assoc ..).symm, exprTokens.append hfront hfront', ?_⟩
    rw [List.length_append]
    omega
  same ts b rest hr hts hshed := by
    obtain ⟨a, us, ha, hb⟩ := bind_eq_ok hr
    rcases h.same ts a us ha hts hshed with hstalled | hsame
    · exact .inl (hstalled.leads ((hf a).leads hb))
    · obtain ⟨front, rfl, hfront, hlength⟩ := h.takes ts a us ha
      rw [List.length_append] at hts
      rw [shed_append, shed_exprTokens hfront, List.length_append] at hshed
      rcases (hf a).same us b rest hb (by omega) (by omega) with hstalled | hsame'
      · exact .inl hstalled
      · exact .inr (by rw [bind_eq hsame, hsame'])

theorem Agrees.map {f : α → β} (h : Agrees k n m r r') : Agrees k n m (f <$> r) (f <$> r') := by
  rw [map_eq_pure_bind, map_eq_pure_bind]
  exact h.bind fun a => agrees_pure (f a)

/-- Readers that go on from the next token as it is there. -/
theorem agrees_peek {f f' : Token → Reader α} (h : ∀ t, Agrees k n m (f t) (f' t)) :
    Agrees k n m (peek >>= f) (peek >>= f') where
  takes ts a rest hr := (h (next ts)).takes ts a rest hr
  same ts a rest hr hts hshed := by
    by_cases hnext : (next ts).kind = .comment
    · exact .inl (Stalled.leads (.inl hnext) ((h (next ts)).leads hr))
    · rw [peek_bind, next_shed hnext]
      exact (h (next ts)).same ts a rest hr hts hshed

theorem agrees_check {f f' : Bool → Reader α} (h : ∀ b, Agrees k n m (f b) (f' b)) :
    Agrees k n m (check kind >>= f) (check kind >>= f') :=
  agrees_peek fun t => h (t.kind == kind)

theorem exists_of_isInner_next (h : isInner (next ts).kind) :
    ∃ t us, ts = t :: us ∧ isInner t.kind := by
  cases ts with
  | nil => cases h
  | cons t us => exact ⟨t, us, rfl, h⟩

/-- Readers that take a token that passes the test `f`, and leave any other to `no`. -/
theorem agrees_test (f : Token → Bool) (yes yes' : Token → Reader α) {no no' : Reader α}
    (hr : ∀ ts, r ts = if f (next ts) then yes (next ts) ts.tail else no ts)
    (hr' : ∀ ts, r' ts = if f (next ts) then yes' (next ts) ts.tail else no' ts)
    (hf : ∀ t, f t → isInner t.kind)
    (hyes : ∀ t, Agrees 0 (n - 1) (m - 1) (yes t) (yes' t)) (hno : Agrees k n m no no')
    (hk : k ≤ 1) : Agrees k n m r r' where
  takes ts a rest h := by
    rw [hr] at h
    split_ifs at h with hnext
    · obtain ⟨t, us, rfl, ht⟩ := exists_of_isInner_next (hf _ hnext)
      obtain ⟨front, hus, hfront, -⟩ := (hyes t).takes us a rest h
      exact ⟨t :: front, congrArg (t :: ·) hus, List.forall_mem_cons.mpr ⟨ht, hfront⟩,
        hk.trans (by simp)⟩
    · exact hno.takes ts a rest h
  same ts a rest h hts hshed := by
    rw [hr] at h
    split_ifs at h with hnext
    · obtain ⟨t, us, rfl, ht⟩ := exists_of_isInner_next (hf _ hnext)
      rw [shed_cons (ne_comment_of_isInner ht)] at hshed ⊢
      rw [next_cons] at hnext
      rw [hr', next_cons, if_pos hnext, List.tail_cons]
      rw [List.length_cons] at hts hshed
      exact (hyes t).same us a rest h (by omega) (by omega)
    · by_cases hcomment : (next ts).kind = .comment
      · exact .inl (Stalled.leads (.inl hcomment) (hno.leads h))
      · rw [hr', next_shed hcomment, if_neg hnext]
        exact hno.same ts a rest h hts hshed

/-- Readers that look at the next token before they take it. -/
theorem agrees_peek_test {f : Token → Bool} {yes yes' no no' : Token → Reader α}
    (hf : ∀ t, f t → isInner t.kind) (hyes : ∀ t, Agrees 0 (n - 1) (m - 1) (yes t) (yes' t))
    (hno : ∀ t, Agrees 1 n m (no t) (no' t)) :
    Agrees 1 n m (peek >>= fun t => if f t then advance >>= fun _ => yes t else no t)
      (peek >>= fun t => if f t then advance >>= fun _ => yes' t else no' t) := by
  have heq : ∀ (y z : Token → Reader α) ts,
      (peek >>= fun t => if f t then advance >>= fun _ => y t else z t) ts =
        if f (next ts) then y (next ts) ts.tail else (peek >>= z) ts := by
    intro y z ts
    rw [peek_bind]
    split_ifs <;> rfl
  exact agrees_test f yes yes' (heq yes no) (heq yes' no') hf hyes (agrees_peek hno) (Nat.le_refl 1)

theorem accept_bind (f : Bool → Reader α) (ts : List Token) : (accept kind >>= f) ts =
    if (next ts).kind == kind then f true ts.tail else f false ts := by
  split_ifs with hnext
  · rw [bind_eq (accept_of_eq (beq_iff_eq.mp hnext))]
  · rw [bind_eq (accept_of_ne fun h => hnext (beq_iff_eq.mpr h))]

theorem acceptWord_bind {word : String} (f : Bool → Reader α) (ts : List Token) :
    (acceptWord word >>= f) ts =
      if isName word (next ts) then f true ts.tail else f false ts := by
  split_ifs with hnext
  · rw [bind_eq (acceptWord_of_true hnext)]
  · rw [bind_eq (acceptWord_of_false (eq_false_of_ne_true hnext))]

theorem expect_apply {what : String} (ts : List Token) : expect kind what ts =
    if (next ts).kind == kind then (pure (next ts) : Reader Token) ts.tail
    else fail (.missing what) ts := by
  rw [expect, check_bind]
  split_ifs <;> rfl

theorem agrees_accept {f f' : Bool → Reader α} (hkind : isInner kind)
    (hyes : Agrees 0 (n - 1) (m - 1) (f true) (f' true)) (hno : Agrees 0 n m (f false) (f' false)) :
    Agrees 0 n m (accept kind >>= f) (accept kind >>= f') :=
  agrees_test (·.kind == kind) (fun _ => f true) (fun _ => f' true) (accept_bind f)
    (accept_bind f') (kinds_of_beq (F := exprTokens) hkind) (fun _ => hyes) hno (Nat.zero_le 1)

theorem agrees_acceptWord {word : String} {f f' : Bool → Reader α}
    (hyes : Agrees 0 (n - 1) (m - 1) (f true) (f' true)) (hno : Agrees 0 n m (f false) (f' false)) :
    Agrees 0 n m (acceptWord word >>= f) (acceptWord word >>= f') :=
  agrees_test (isName word) (fun _ => f true) (fun _ => f' true) (acceptWord_bind f)
    (acceptWord_bind f') (kinds_of_isName (F := exprTokens) rfl) (fun _ => hyes) hno (Nat.zero_le 1)

theorem agrees_expect {what : String} (hkind : isInner kind) :
    Agrees 1 n m (expect kind what) (expect kind what) :=
  agrees_test (·.kind == kind) pure pure expect_apply expect_apply
    (kinds_of_beq (F := exprTokens) hkind) agrees_pure agrees_fail (Nat.le_refl 1)

theorem agrees_nameOr {cause : GrammarCause} :
    Agrees 1 n m (nameOr cause) (nameOr cause) := by
  have heq : ∀ ts, nameOr cause ts = if (next ts).kind == .name
      then (pure (next ts).word : Reader Word) ts.tail else fail (fun _ => cause) ts := by
    intro ts
    rw [nameOr, check_bind]
    split_ifs <;> rfl
  exact agrees_test (·.kind == .name) (fun t => pure t.word) (fun t => pure t.word) heq heq
    (kinds_of_beq (F := exprTokens) rfl) (fun t => agrees_pure t.word) agrees_fail (Nat.le_refl 1)

/-- A reader that loops, as a family by the bound: where one bound is zero, all depends on what is
read of nothing. -/
theorem agrees_loop {ε : Type} (f f' : Nat → ε → Reader α) (hf : ∀ n e, Careful inner (f n e))
    (hnil : ∀ n m e p, f n e [] = .ok p → f' m e [] = .ok p)
    (hsucc : ∀ i < n, ∀ j < m, (∀ e, Agrees 0 i j (f i e) (f' j e)) →
      ∀ e, Agrees 0 (i + 1) (j + 1) (f (i + 1) e) (f' (j + 1) e)) (e : ε) :
    Agrees 0 n m (f n e) (f' m e) := by
  suffices ∀ i ≤ n, ∀ j ≤ m, ∀ e, Agrees 0 i j (f i e) (f' j e) from
    this n (Nat.le_refl n) m (Nat.le_refl m) e
  intro i
  induction i with
  | zero => exact fun _ j _ e => .of_zero (.inl rfl) (fun _ _ _ => (hf 0 e).leads) (hnil 0 j e)
  | succ i ih =>
    intro hi j hj
    cases j with
    | zero =>
      exact fun e => .of_zero (.inr rfl) (fun _ _ _ => (hf (i + 1) e).leads) (hnil (i + 1) 0 e)
    | succ j => exact hsucc i hi j hj (ih (Nat.le_of_lt hi) j (Nat.le_of_lt hj))

/-- The readers of the parts of a rule. -/
structure AgreesInside (n m : Nat) (r r' : Reader α) : Prop extends Agrees 1 n m r r' where
  careful : Careful inner r

theorem AgreesInside.mono {n' m' : Nat} (h : AgreesInside n m r r') (hn : n' ≤ n) (hm : m' ≤ m) :
    AgreesInside n' m' r r' :=
  ⟨h.toAgrees.mono (Nat.le_refl 1) hn hm, h.careful⟩

/-! ### Lists -/

variable {item item' : Reader α} {expr expr' : Reader Expr} {e : Expr}

theorem items_nil {close : TokenKind} (hclose : close ≠ .eof) (hitem : ∀ p, item [] ≠ .ok p)
    (n : Nat) (p : List α × List Token) : items close item n [] ≠ .ok p := by
  intro hp
  have hnext : ((next []).kind == close) = false := beq_false_of_ne hclose.symm
  cases n with
  | zero | succ n =>
    rw [items, check_bind, hnext] at hp
    obtain ⟨a, us, ha, -⟩ := bind_eq_ok hp
    exact hitem _ ha

theorem items_agrees (close : TokenKind) (hclose : close ≠ .eof)
    (h : AgreesInside n m item item') :
    Agrees 0 n m (items close item n) (items close item' m) := by
  refine agrees_loop (fun i (_ : Unit) => items close item i)
    (fun j _ => items close item' j) (fun i _ => items_careful h.careful i)
    (fun i j _ p hp => absurd hp (items_nil hclose (not_ok_nil h.toAgrees) i p)) ?_ ()
  intro i hi j hj ih _
  rw [items, items]
  refine agrees_check fun b => ?_
  split_ifs
  · exact agrees_pure []
  · refine ((h.mono hi hj).bind fun a => ?_).zero
    refine agrees_accept rfl ?_ (agrees_pure [a])
    exact (ih ()).pred.bind fun as =>
      agrees_pure (a :: as)

theorem moreItems_nil (item : Reader α) (n : Nat) : moreItems item n [] = .ok ([], []) := by
  cases n <;> rfl

theorem moreItems_agrees (h : AgreesInside n m item item') :
    Agrees 0 n m (moreItems item n) (moreItems item' m) := by
  refine agrees_loop (fun i (_ : Unit) => moreItems item i)
    (fun j _ => moreItems item' j) (fun i _ => moreItems_careful h.careful i)
    (fun i j _ p => by rw [moreItems_nil, moreItems_nil]; exact id) ?_ ()
  intro i hi j hj ih _
  rw [moreItems, moreItems]
  refine agrees_accept rfl ?_ (agrees_pure [])
  refine ((h.mono (Nat.le_of_lt hi) (Nat.le_of_lt hj)).bind fun a => ?_).zero
  exact (ih ()).pred.bind fun as =>
    agrees_pure (a :: as)

theorem sequence_agrees (h : AgreesInside n m expr expr') :
    Agrees 1 n m (sequence n expr) (sequence m expr') := by
  unfold sequence
  refine h.bind fun e => agrees_check fun b => ?_
  split_ifs
  · exact (moreItems_agrees h).pred.bind fun es => agrees_pure (Expr.tuple (e :: es))
  · exact agrees_pure e

/-! ### Arguments -/

theorem argument_agrees (h : AgreesInside n m expr expr') (named : Bool) :
    Agrees 1 n m (argument expr named) (argument expr' named) := by
  unfold argument
  refine agrees_peek_test (fun t ht => ?_) (fun t => ?_) fun t => ?_
  · rw [Bool.and_eq_true] at ht
    exact kinds_of_beq (F := exprTokens) rfl t ht.1
  · exact (h.pred.bind fun e => agrees_pure (Arg.spread e, named)).zero
  · refine h.bind fun value => agrees_accept rfl ?_ ?_
    · cases value with
      | name w => exact (h.pred.pred.bind fun e => agrees_pure (Arg.keyword w e, true)).zero
      | _ => exact agrees_failAt
    · rw [if_neg Bool.false_ne_true, if_neg Bool.false_ne_true]
      split_ifs
      · exact agrees_failAt
      · exact agrees_pure (Arg.positional value, named)

theorem argument_nil (h : ∀ p, expr [] ≠ .ok p) (named : Bool) (p : (Arg × Bool) × List Token) :
    argument expr named [] ≠ .ok p := by
  intro hp
  rw [argument, peek_bind] at hp
  obtain ⟨e, us, he, -⟩ := bind_eq_ok (show (expr >>= _) [] = .ok p from hp)
  exact h _ he

theorem arguments_nil (h : ∀ p, expr [] ≠ .ok p) (named : Bool) (n : Nat)
    (p : List Arg × List Token) : arguments expr named n [] ≠ .ok p := by
  intro hp
  cases n with
  | zero | succ n =>
    rw [arguments, check_bind] at hp
    obtain ⟨a, us, ha, -⟩ := bind_eq_ok (show (argument expr named >>= _) [] = .ok p from hp)
    exact argument_nil h named _ ha

theorem arguments_agrees (h : AgreesInside n m expr expr') (named : Bool) :
    Agrees 0 n m (arguments expr named n) (arguments expr' named m) := by
  refine agrees_loop (fun i named => arguments expr named i)
    (fun j named => arguments expr' named j) (fun i named => arguments_careful h.careful named i)
    (fun i j named p hp => absurd hp (arguments_nil (not_ok_nil h.toAgrees) named i p)) ?_ named
  intro i hi j hj ih named
  rw [arguments, arguments]
  refine agrees_check fun b => ?_
  split_ifs
  · exact agrees_pure []
  · refine ((argument_agrees (h.mono hi hj) named).bind fun p => ?_).zero
    refine agrees_accept rfl ?_ (agrees_pure [p.1])
    exact (ih p.2).pred.bind fun as => agrees_pure (p.1 :: as)

theorem argumentList_agrees (h : AgreesInside n m expr expr') :
    Agrees 1 (n + 1) (m + 1) (argumentList n expr) (argumentList m expr') := by
  unfold argumentList
  refine (agrees_expect rfl).bind fun o => (arguments_agrees h false).bind fun as => ?_
  exact ((agrees_expect rfl).bind fun c => agrees_pure as).zero

/-! ### Postfixes -/

theorem subscriptParts_nil (h : ∀ p, expr [] ≠ .ok p) (n : Nat)
    (p : (List (Option Expr) × Bool) × List Token) : subscriptParts expr n [] ≠ .ok p := by
  intro hp
  have hcolon : accept .colon [] = .ok (false, []) := accept_of_ne nofun
  cases n with
  | zero =>
    rw [subscriptParts, check_bind] at hp
    obtain ⟨e, us, he, -⟩ := bind_eq_ok (show (expr >>= _) [] = .ok p from hp)
    exact h _ he
  | succ n =>
    rw [subscriptParts, check_bind, show ((next []).kind == .closeSquare) = false from rfl,
      if_neg Bool.false_ne_true, bind_eq hcolon] at hp
    obtain ⟨e, us, he, -⟩ := bind_eq_ok (show (expr >>= _) [] = .ok p from hp)
    exact h _ he

theorem subscriptParts_agrees (h : AgreesInside n m expr expr') :
    Agrees 0 n m (subscriptParts expr n) (subscriptParts expr' m) := by
  refine agrees_loop (fun i (_ : Unit) => subscriptParts expr i)
    (fun j _ => subscriptParts expr' j) (fun i _ => subscriptParts_careful h.careful i)
    (fun i j _ p hp => absurd hp (subscriptParts_nil (not_ok_nil h.toAgrees) i p)) ?_ ()
  intro i hi j hj ih _
  rw [subscriptParts, subscriptParts]
  refine agrees_check fun b => ?_
  split_ifs
  · exact agrees_pure _
  · refine agrees_accept rfl ?_ ?_
    · exact (ih ()).bind fun p => agrees_pure _
    · refine ((h.mono hi hj).bind fun e => ?_).zero
      refine agrees_accept rfl ?_ ?_
      · exact (ih ()).pred.bind fun p => agrees_pure _
      · exact (ih ()).bind fun p => agrees_pure _

theorem subscript_agrees (h : AgreesInside n m expr expr') (e : Expr) :
    Agrees 0 n m (subscript n expr e) (subscript m expr' e) := by
  unfold subscript
  refine agrees_peek fun start => (subscriptParts_agrees h).bind fun p => ?_
  obtain ⟨parts, colons⟩ := p
  dsimp only
  split_ifs
  · split
    · exact agrees_pure _
    · exact agrees_pure _
    · exact agrees_pure _
    · exact agrees_failAt
  · split
    · exact agrees_pure _
    · exact agrees_failAt

theorem members_nil (expr : Reader Expr) (n : Nat) (e : Expr) :
    members expr n e [] = .ok (e, []) := by
  cases n <;> rfl

theorem members_agrees (h : AgreesInside n m expr expr') (e : Expr) :
    Agrees 0 n m (members expr n e) (members expr' m e) := by
  refine agrees_loop (members expr) (members expr') (members_careful h.careful)
    (fun i j e p => by rw [members_nil, members_nil]; exact id) ?_ e
  intro i hi j hj ih e
  rw [members, members]
  refine agrees_accept rfl ?_ (agrees_accept rfl ?_ (agrees_pure e))
  · refine (subscript_agrees (h.mono (Nat.le_of_lt hi) (Nat.le_of_lt hj)) e).bind fun e' => ?_
    exact ((agrees_expect rfl).bind fun c => (ih e').pred).zero
  · exact (agrees_nameOr.bind fun name => (ih (.member e name)).pred).zero

theorem calls_nil (expr : Reader Expr) (n : Nat) (e : Expr) :
    calls expr n e [] = .ok (e, []) := by
  cases n <;> rfl

theorem calls_agrees (h : AgreesInside n m expr expr') (e : Expr) :
    Agrees 0 n m (calls expr n e) (calls expr' m e) := by
  refine agrees_loop (calls expr) (calls expr') (calls_careful h.careful)
    (fun i j e p => by rw [calls_nil, calls_nil]; exact id) ?_ e
  intro i hi j hj ih e
  have hinside := h.mono (Nat.le_of_lt hi) (Nat.le_of_lt hj)
  rw [calls, calls]
  refine agrees_check fun b => ?_
  split_ifs
  · refine ((argumentList_agrees hinside).bind fun as => ?_).zero
    exact (members_agrees hinside (.call e as)).bind fun e' => ih e'
  · exact agrees_pure e

/-! ### Primary expressions -/

theorem objectEntry_agrees (h : AgreesInside n m expr expr') :
    AgreesInside n m (objectEntry expr) (objectEntry expr') := by
  refine ⟨?_, objectEntry_careful h.careful⟩
  unfold objectEntry
  refine h.bind fun key => ((agrees_expect rfl).bind fun colon => ?_).zero
  exact (h.pred.pred.bind fun value => agrees_pure (key, value)).zero

theorem joinStrings_shed : ∀ ts, Stalled (joinStrings ts).2 ∨
    joinStrings (shed ts) = ((joinStrings ts).1, shed (joinStrings ts).2)
  | [] => .inr rfl
  | t :: ts => by
    by_cases hkind : t.kind = .comment
    · refine .inl ?_
      rw [joinStrings, hkind]
      exact .inl hkind
    · rw [shed_cons hkind, joinStrings, joinStrings]
      split_ifs with hstring
      · refine (joinStrings_shed ts).imp_right fun h => ?_
        rw [h]
      · exact .inr (by rw [shed_cons hkind])

theorem joinStrings_agrees :
    Agrees 0 n m (fun ts => .ok (joinStrings ts)) (fun ts => .ok (joinStrings ts)) where
  takes ts a rest hr := by
    have heq : joinStrings ts = (a, rest) := Except.ok.inj hr
    obtain ⟨front, hts, hfront⟩ := leads_joinStrings ts
    rw [heq] at hts
    exact takes_of_leads ⟨front, hts, hfront.isInner⟩
  same ts a rest hr _ _ := by
    have heq : joinStrings ts = (a, rest) := Except.ok.inj hr
    have hshed := joinStrings_shed ts
    rw [heq] at hshed
    exact hshed.imp_right (congrArg Except.ok)

/-- Both readers take the token `t` where it comes next, and what they do behind it agrees. -/
def AgreesBehind (n m : Nat) (r r' : Reader α) (t : Token) : Prop :=
  isInner t.kind ∧ ∃ s s', Agrees 0 n m s s' ∧ ∀ ts, r (t :: ts) = s ts ∧ r' (t :: ts) = s' ts

theorem agrees_of_behind (hnil : ∀ p, r [] ≠ .ok p)
    (h : ∀ t, (∀ ts p, r (t :: ts) ≠ .ok p) ∨ AgreesBehind n m r r' t) :
    Agrees 1 (n + 1) (m + 1) r r' where
  takes
    | [], _, _, hr => absurd hr (hnil _)
    | t :: ts, a, rest, hr => by
      obtain ⟨ht, s, s', hs, heq⟩ := (h t).resolve_left fun h => h ts _ hr
      rw [(heq ts).1] at hr
      obtain ⟨front, rfl, hfront, -⟩ := hs.takes ts a rest hr
      exact ⟨t :: front, rfl, List.forall_mem_cons.mpr ⟨ht, hfront⟩, by simp⟩
  same
    | [], _, _, hr, _, _ => absurd hr (hnil _)
    | t :: ts, a, rest, hr, hts, hshed => by
      obtain ⟨ht, s, s', hs, heq⟩ := (h t).resolve_left fun h => h ts _ hr
      rw [shed_cons (ne_comment_of_isInner ht)] at hshed ⊢
      rw [(heq ts).1] at hr
      rw [(heq (shed ts)).2]
      exact hs.same ts a rest hr (Nat.le_of_succ_le_succ hts) (Nat.le_of_succ_le_succ hshed)

/-- Readers of what stands before a closing bracket. -/
theorem Agrees.closed (kind : TokenKind) {what : String} (hkind : isInner kind) (f : α → β)
    (h : Agrees k n m r r') : Agrees 0 n m (do let a ← r; let _ ← expect kind what; return f a)
      (do let a ← r'; let _ ← expect kind what; return f a) :=
  h.zero.bind fun a => ((agrees_expect hkind).bind fun _ => agrees_pure (f a)).zero

theorem primary_agrees (h : AgreesInside n m expr expr') :
    Agrees 1 (n + 1) (m + 1) (primary n expr) (primary m expr') := by
  refine agrees_of_behind nofun fun t => ?_
  obtain ⟨kind, value, pos⟩ := t
  have hleaf : ∀ e : Expr, Agrees 0 n m (pure e) (pure e) := agrees_pure
  cases kind with
  | number =>
    exact .inr ⟨rfl, _, _, hleaf
      (if value.toList.contains '.' then .float ⟨value, pos⟩ else .int ⟨value, pos⟩),
      fun _ => ⟨rfl, rfl⟩⟩
  | name => exact .inr ⟨rfl, _, _, hleaf (nameExpr ⟨value, pos⟩), fun _ => ⟨rfl, rfl⟩⟩
  | string =>
    refine .inr ⟨rfl, _, _, ?_, fun _ => ⟨rfl, rfl⟩⟩
    exact joinStrings_agrees.bind fun more => hleaf (.string ⟨value ++ more, pos⟩)
  | openParen =>
    exact .inr ⟨rfl, _, _, (sequence_agrees h).closed .closeParen rfl id, fun _ => ⟨rfl, rfl⟩⟩
  | openSquare =>
    exact .inr ⟨rfl, _, _, (items_agrees .closeSquare nofun h).closed .closeSquare rfl .array,
      fun _ => ⟨rfl, rfl⟩⟩
  | openCurly =>
    have hentries := items_agrees .closeCurly nofun (objectEntry_agrees h)
    exact .inr ⟨rfl, _, _, hentries.closed .closeCurly rfl .object, fun _ => ⟨rfl, rfl⟩⟩
  | _ => exact .inl nofun

theorem callOrMember_agrees (h : AgreesInside n m expr expr') :
    Agrees 1 (n + 1) (m + 1) (callOrMember n expr) (callOrMember m expr') := by
  unfold callOrMember
  refine (primary_agrees h).bind fun e => (members_agrees h e).bind fun e' => ?_
  exact calls_agrees h e'

/-! ### Filters and tests -/

theorem filters_nil (expr : Reader Expr) (n : Nat) (e : Expr) :
    filters expr n e [] = .ok (e, []) := by
  cases n <;> rfl

theorem filters_agrees (h : AgreesInside n m expr expr') (e : Expr) :
    Agrees 0 n m (filters expr n e) (filters expr' m e) := by
  refine agrees_loop (filters expr) (filters expr') (filters_careful h.careful)
    (fun i j e p => by rw [filters_nil, filters_nil]; exact id) ?_ e
  intro i hi j hj ih e
  have hinside := h.mono (Nat.le_of_lt hi) (Nat.le_of_lt hj)
  rw [filters, filters]
  refine agrees_accept rfl ?_ (agrees_pure e)
  refine (agrees_nameOr.bind fun name => ?_).zero
  exact (calls_agrees hinside (.name name)).pred.bind fun f => (ih (.filter e f)).pred

theorem filtered_agrees (h : AgreesInside n m expr expr') :
    Agrees 1 (n + 1) (m + 1) (filtered n expr) (filtered m expr') := by
  unfold filtered
  exact (callOrMember_agrees h).bind fun e => filters_agrees h e

theorem tests_nil (n : Nat) (e : Expr) : tests n e [] = .ok (e, []) := by
  cases n <;> rfl

theorem tests_agrees (e : Expr) : Agrees 0 n m (tests n e) (tests m e) := by
  have hnil (i j : Nat) (e : Expr) (p : Expr × List Token) (h : tests i e [] = .ok p) :
      tests j e [] = .ok p := by
    rw [tests_nil] at h ⊢
    exact h
  refine agrees_loop tests tests tests_careful hnil ?_ e
  intro i hi j hj ih e
  rw [tests, tests]
  have hname : ∀ negated, Agrees 0 i j (do
      let name ← nameOr .namelessTest
      tests i (.test e negated name)) (do
      let name ← nameOr .namelessTest
      tests j (.test e negated name)) :=
    fun negated => (agrees_nameOr.bind fun name => (ih (.test e negated name)).pred).zero
  exact agrees_acceptWord (agrees_acceptWord (hname true).pred (hname false)) (agrees_pure e)

theorem tested_agrees (h : AgreesInside n m expr expr') :
    Agrees 1 (n + 1) (m + 1) (tested n expr) (tested m expr') := by
  unfold tested
  exact (filtered_agrees h).bind fun e => tests_agrees e

/-! ### Operators -/

variable {op? : List Token → Option (Word × List Token)} {operand operand' : Reader Expr}

/-- The operator is found where comments are shed too, unless a comment is in the way. -/
structure FoundShed (op? : List Token → Option (Word × List Token)) : Prop where
  passes : Passes op?
  lt : ∀ ts op rest, op? ts = some (op, rest) → rest.length < ts.length
  same : ∀ ts, ¬ Stalled ts → op? (shed ts) = (op? ts).map (Prod.map id shed)

theorem ne_comment_of_not_stalled (h : ¬ Stalled (t :: ts)) : t.kind ≠ .comment :=
  fun hkind => h (.inl hkind)

theorem foundShed_kindOp (hkind : inner.kinds kind) : FoundShed (kindOp? kind) where
  passes := passes_kindOp hkind
  lt := by
    rintro (_ | ⟨t, ts⟩) op rest h
    · cases h
    · rw [kindOp?] at h
      split_ifs at h
      cases h
      exact Nat.lt_succ_self _
  same := by
    rintro (_ | ⟨t, ts⟩) h
    · rfl
    · rw [shed_cons (ne_comment_of_not_stalled h), kindOp?, kindOp?]
      split_ifs <;> rfl

theorem foundShed_wordOp (word : String) : FoundShed (wordOp? word) where
  passes := passes_wordOp word
  lt := by
    rintro (_ | ⟨t, ts⟩) op rest h
    · cases h
    · rw [wordOp?] at h
      split_ifs at h
      cases h
      exact Nat.lt_succ_self _
  same := by
    rintro (_ | ⟨t, ts⟩) h
    · rfl
    · rw [shed_cons (ne_comment_of_not_stalled h), wordOp?, wordOp?]
      split_ifs <;> rfl

/-- Past a `not` the grammar looks at one more token. -/
theorem head_shed (h : ¬ Stalled (t :: ts)) (hnot : isName "not" t) :
    (shed ts).head? = ts.head? ∧ (shed ts).tail = shed ts.tail := by
  cases ts with
  | nil => exact ⟨rfl, rfl⟩
  | cons t' ts =>
    have ht' : t'.kind ≠ .comment := fun hkind => h (.inr ⟨hnot, hkind⟩)
    rw [shed_cons ht']
    exact ⟨rfl, rfl⟩

theorem foundShed_comparisonOp : FoundShed comparisonOp? where
  passes := passes_comparisonOp
  lt := by
    rintro (_ | ⟨t, ts⟩) op rest h
    · cases h
    · rw [comparisonOp?] at h
      split_ifs at h
      · cases h
        exact Nat.lt_succ_of_le (List.length_tail ▸ Nat.sub_le ..)
      · cases h
        exact Nat.lt_succ_self _
  same := by
    rintro (_ | ⟨t, ts⟩) h
    · rfl
    · rw [shed_cons (ne_comment_of_not_stalled h), comparisonOp?, comparisonOp?]
      cases hnot : isName "not" t with
      | false =>
        rw [Bool.false_and, Bool.false_and, if_neg Bool.false_ne_true, if_neg Bool.false_ne_true]
        split_ifs <;> rfl
      | true =>
        obtain ⟨hhead, htail⟩ := head_shed h hnot
        rw [hhead, htail]
        split_ifs <;> rfl

theorem FoundShed.nil (hop : FoundShed op?) : op? [] = none := by
  cases hfound : op? [] with
  | none => rfl
  | some p => exact absurd (hop.lt [] p.1 p.2 hfound) (Nat.not_lt_zero _)

/-- An operator takes as much of the tokens as of those without comments. -/
theorem FoundShed.length_le {op : Word} (hop : FoundShed op?) (h : op? ts = some (op, us))
    (hn : ts.length ≤ n + 1) (hm : (shed ts).length ≤ m + 1) :
    us.length ≤ n ∧ (shed us).length ≤ m := by
  have hlt := hop.lt ts op us h
  obtain ⟨front, rfl, hfront⟩ := hop.passes ts op us h
  rw [shed_append, shed_exprTokens hfront.isInner] at hm
  rw [List.length_append] at hn hm hlt
  omega

theorem operations_nil (hop : FoundShed op?) (operand : Reader Expr) (n : Nat) (e : Expr) :
    operations op? operand n e [] = .ok (e, []) := by
  cases n with
  | zero => rfl
  | succ n =>
    rw [operations]
    dsimp only
    rw [hop.nil]

theorem operations_agrees (hop : FoundShed op?) (h : AgreesInside n m operand operand') (e : Expr) :
    Agrees 0 n m (operations op? operand n e) (operations op? operand' m e) := by
  have hcareful := operations_careful hop.passes h.careful
  refine agrees_loop (operations op? operand) (operations op? operand') hcareful
    (fun i j e p => by rw [operations_nil hop, operations_nil hop]; exact id) ?_ e
  intro i hi j hj ih e
  have hinside := h.mono (Nat.le_of_lt hi) (Nat.le_of_lt hj)
  refine ⟨fun ts a rest hr => takes_of_leads ((hcareful (i + 1) e).leads hr), ?_⟩
  intro ts a rest hr hts hshed
  by_cases hstalled : Stalled ts
  · exact .inl (hstalled.leads ((hcareful (i + 1) e).leads hr))
  have hsame := hop.same ts hstalled
  rw [operations] at hr ⊢
  dsimp only at hr ⊢
  cases hfound : op? ts with
  | none =>
    rw [hfound] at hr hsame
    cases hr
    rw [hsame]
    exact .inr rfl
  | some p =>
    obtain ⟨op, us⟩ := p
    rw [hfound] at hr hsame
    rw [hsame]
    have hboth := hinside.bind fun right => (ih (.binary e op right)).pred
    obtain ⟨hn, hm⟩ := hop.length_le hfound hts hshed
    exact hboth.same us a rest hr hn hm

theorem leftAssoc_agrees (hop : FoundShed op?) (h : AgreesInside (n + 1) (m + 1) operand operand') :
    AgreesInside (n + 1) (m + 1) (leftAssoc n op? operand) (leftAssoc m op? operand') := by
  refine ⟨?_, leftAssoc_careful hop.passes h.careful⟩
  unfold leftAssoc
  exact h.bind fun e => operations_agrees hop (h.mono (Nat.le_succ n) (Nat.le_succ m)) e

theorem comparison_agrees (h : AgreesInside n m expr expr') :
    AgreesInside (n + 1) (m + 1) (comparison n expr) (comparison m expr') :=
  leftAssoc_agrees foundShed_comparisonOp <| leftAssoc_agrees (foundShed_kindOp rfl) <|
    leftAssoc_agrees (foundShed_kindOp rfl) ⟨tested_agrees h, tested_careful h.careful⟩

theorem negation_lt (h : AgreesInside n m expr expr') : ∀ ts a rest,
    negation n expr ts = .ok (a, rest) → rest.length < ts.length
  | [], a, rest, hr => (comparison_agrees h).lt hr
  | t :: ts, a, rest, hr => by
    rw [negation] at hr
    dsimp only at hr
    split_ifs at hr with hnot
    · cases hrest : negation n expr ts with
      | error e =>
        rw [hrest] at hr
        cases hr
      | ok p =>
        rw [hrest] at hr
        cases hr
        exact Nat.lt_succ_of_lt (negation_lt h ts p.1 p.2 hrest)
    · exact (comparison_agrees h).lt hr

theorem negation_same (h : AgreesInside n m expr expr') : ∀ ts a rest,
    negation n expr ts = .ok (a, rest) → ts.length ≤ n + 1 → (shed ts).length ≤ m + 1 →
      Stalled rest ∨ negation m expr' (shed ts) = .ok (a, shed rest)
  | [], a, rest, hr, hts, hshed => (comparison_agrees h).same [] a rest hr hts hshed
  | t :: ts, a, rest, hr, hts, hshed => by
    by_cases hkind : t.kind = .comment
    · have hstalled : Stalled (t :: ts) := .inl hkind
      exact .inl (hstalled.leads ((negation_careful h.careful).leads hr))
    rw [negation] at hr
    dsimp only at hr
    split_ifs at hr with hnot
    · cases hrest : negation n expr ts with
      | error e =>
        rw [hrest] at hr
        cases hr
      | ok p =>
        rw [hrest] at hr
        cases hr
        rw [shed_cons hkind] at hshed ⊢
        have hts' : ts.length ≤ n + 1 := Nat.le_of_succ_le hts
        refine (negation_same h ts p.1 p.2 hrest hts' (Nat.le_of_succ_le hshed)).imp_right ?_
        intro hsame
        rw [negation]
        dsimp only
        rw [if_pos hnot, hsame]
        rfl
    · refine ((comparison_agrees h).same (t :: ts) a rest hr hts hshed).imp_right ?_
      rw [shed_cons hkind, negation]
      dsimp only
      rw [if_neg hnot]
      exact id

theorem negation_agrees (h : AgreesInside n m expr expr') :
    AgreesInside (n + 1) (m + 1) (negation n expr) (negation m expr') := by
  have hcareful : Careful inner (negation n expr) := negation_careful h.careful
  refine ⟨⟨fun ts a rest hr => ?_, negation_same h⟩, hcareful⟩
  obtain ⟨front, rfl, hfront⟩ := hcareful.leads hr
  have hlt := negation_lt h _ a rest hr
  rw [List.length_append] at hlt
  exact ⟨front, rfl, hfront, by omega⟩

theorem disjunction_agrees (h : AgreesInside n m expr expr') :
    AgreesInside (n + 1) (m + 1) (disjunction n expr) (disjunction m expr') :=
  leftAssoc_agrees (foundShed_wordOp "or") <| leftAssoc_agrees (foundShed_wordOp "and") <|
    negation_agrees h

theorem condition_agrees (h : AgreesInside n m expr expr') :
    AgreesInside (n + 1) (m + 1) (condition n expr) (condition m expr') := by
  refine ⟨?_, condition_careful h.careful⟩
  have hor := disjunction_agrees h
  unfold condition
  refine hor.bind fun value => agrees_acceptWord ?_ (agrees_pure value)
  refine (hor.pred.pred.bind fun test => ?_).zero
  refine agrees_acceptWord ?_ (agrees_pure (Expr.select value test))
  exact ((h.toAgrees.mono (Nat.le_refl 1) (by omega) (by omega)).bind fun e =>
    agrees_pure (Expr.ternary test value e)).zero

/-- The knot is tied by induction on the bound. -/
theorem exprWithin_agrees : ∀ n m, AgreesInside n m (exprWithin n) (exprWithin m)
  | 0, _ => ⟨agrees_fail, exprWithin_careful 0⟩
  | n + 1, m + 1 => condition_agrees (exprWithin_agrees n m)
  | n + 1, 0 => by
    have hagrees := condition_agrees (exprWithin_agrees n 0)
    refine ⟨⟨hagrees.takes, fun ts a rest hr _ hshed => ?_⟩, hagrees.careful⟩
    rcases eq_nil_or_stalled (List.length_eq_zero_iff.mp (Nat.le_zero.mp hshed)) with rfl | hstalled
    · exact absurd hr (not_ok_nil hagrees.toAgrees _)
    · exact .inl (hstalled.leads (hagrees.leads hr))

end ChatTemplate.Grammar
