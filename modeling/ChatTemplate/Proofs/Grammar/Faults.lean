import ChatTemplate.Proofs.Grammar.Fronts
import ChatTemplate.Proofs.Grammar.StmtSound

/-!
# Where the grammar fails

One lemma for each rule says that it is guarded: it takes what expressions are made of (`inner`),
or what statements are made of (`closed`), and complains of a token that comes next, or of the one
that was next when the rule was started. As only a reader that fails on the spot looks at the end
mark, no reader of a text that has one ever sees what comes past the last token. The knots are tied
by induction on the bound.
-/

namespace ChatTemplate.Grammar
open Reader Chunk

variable {α : Type} {r : Reader α} {n : Nat} {ts rest : List Token} {places : Pos → Prop}

/-! ### Expressions -/

section
variable {item : Reader α} {expr : Reader Expr}

theorem items_careful {close : TokenKind} (hitem : Careful inner item) :
    ∀ n, Careful inner (items close item n)
  | 0, places => by
    rw [items]
    refine guarded_check.bind fun b => ?_
    split_ifs
    · exact guarded_pure []
    · exact (hitem places).bind fun a => guarded_pure [a]
  | n + 1, places => by
    rw [items]
    refine guarded_check.bind fun b => ?_
    split_ifs
    · exact guarded_pure []
    · refine (hitem places).bind fun a => (guarded_accept rfl).bind fun comma => ?_
      split_ifs
      · exact (items_careful hitem n places).bind fun as => guarded_pure (a :: as)
      · exact guarded_pure [a]

theorem moreItems_careful (hitem : Careful inner item) : ∀ n, Careful inner (moreItems item n)
  | 0, _ => guarded_pure []
  | n + 1, places => by
    rw [moreItems]
    refine (guarded_accept rfl).bind fun comma => ?_
    split_ifs
    · exact (hitem places).bind fun a =>
        (moreItems_careful hitem n places).bind fun as => guarded_pure (a :: as)
    · exact guarded_pure []

theorem sequence_careful (hexpr : Careful inner expr) : Careful inner (sequence n expr) := by
  intro places
  unfold sequence
  refine (hexpr places).bind fun e => guarded_check.bind fun comma => ?_
  split_ifs
  · exact (moreItems_careful hexpr n places).bind fun es => guarded_pure (Expr.tuple (e :: es))
  · exact guarded_pure e

/-- An argument that is refused is complained of at its first token. -/
theorem argument_careful (hexpr : Careful inner expr) (named : Bool) :
    Careful inner (argument expr named) := by
  intro places ts
  rw [argument, peek_bind]
  by_cases hstar : (next ts).kind == .multiplicative && (next ts).value == "*"
  · rw [if_pos hstar, advance_bind]
    rw [Bool.and_eq_true] at hstar
    refine .of_leads (leads_tail (kinds_of_beq rfl _ hstar.1)) ?_
    exact ((hexpr places).bind fun e => guarded_pure (Arg.spread e, named)) _
  · rw [if_neg hstar]
    refine .of_next (((hexpr _).bind fun value => ?_) ts)
    refine (guarded_accept rfl).bind fun eq => ?_
    split_ifs
    · split
      · exact (hexpr _).bind fun e => guarded_pure _
      · exact guarded_failAt (.inr rfl)
    · exact guarded_failAt (.inr rfl)
    · exact guarded_pure _

theorem arguments_careful (hexpr : Careful inner expr) :
    ∀ named n, Careful inner (arguments expr named n)
  | named, 0, places => by
    rw [arguments]
    refine guarded_check.bind fun b => ?_
    split_ifs
    · exact guarded_pure []
    · refine (argument_careful hexpr named places).bind fun p => ?_
      exact (guarded_accept rfl).bind fun comma => guarded_pure [p.1]
  | named, n + 1, places => by
    rw [arguments]
    refine guarded_check.bind fun b => ?_
    split_ifs
    · exact guarded_pure []
    · refine (argument_careful hexpr named places).bind fun p =>
        (guarded_accept rfl).bind fun comma => ?_
      split_ifs
      · exact (arguments_careful hexpr p.2 n places).bind fun as => guarded_pure (p.1 :: as)
      · exact guarded_pure [p.1]

theorem argumentList_careful (hexpr : Careful inner expr) :
    Careful inner (argumentList n expr) := by
  intro places
  unfold argumentList
  refine (guarded_expect rfl).bind fun o => ?_
  refine (arguments_careful hexpr false n places).bind fun as => ?_
  exact (guarded_expect rfl).bind fun c => guarded_pure as

theorem subscriptParts_careful (hexpr : Careful inner expr) :
    ∀ n, Careful inner (subscriptParts expr n)
  | 0, places => by
    rw [subscriptParts]
    refine guarded_check.bind fun b => ?_
    split_ifs
    · exact guarded_pure _
    · exact (hexpr places).bind fun e => guarded_pure _
  | n + 1, places => by
    have ih := subscriptParts_careful hexpr n places
    rw [subscriptParts]
    refine guarded_check.bind fun b => ?_
    split_ifs
    · exact guarded_pure _
    · refine (guarded_accept rfl).bind fun colon => ?_
      split_ifs
      · exact ih.bind fun p => guarded_pure _
      · refine (hexpr places).bind fun e => (guarded_accept rfl).bind fun colon => ?_
        exact ih.bind fun p => guarded_pure _

/-- A subscript of too many parts or none is complained of at its first token. -/
theorem subscript_careful (hexpr : Careful inner expr) (e : Expr) :
    Careful inner (subscript n expr e) := by
  intro places ts
  rw [subscript, peek_bind]
  refine .of_next (((subscriptParts_careful hexpr n _).bind fun p => ?_) ts)
  obtain ⟨parts, colons⟩ := p
  dsimp only
  split_ifs
  · split
    · exact guarded_pure _
    · exact guarded_pure _
    · exact guarded_pure _
    · exact guarded_failAt (.inr rfl)
  · split
    · exact guarded_pure _
    · exact guarded_failAt (.inr rfl)

theorem members_careful (hexpr : Careful inner expr) : ∀ n e, Careful inner (members expr n e)
  | 0, e, _ => guarded_pure e
  | n + 1, e, places => by
    rw [members]
    refine (guarded_accept rfl).bind fun square => ?_
    split_ifs
    · refine (subscript_careful hexpr e places).bind fun e' => ?_
      exact (guarded_expect rfl).bind fun c => members_careful hexpr n e' places
    · refine (guarded_accept rfl).bind fun dot => ?_
      split_ifs
      · exact (guarded_nameOr rfl).bind fun name => members_careful hexpr n (.member e name) places
      · exact guarded_pure e

theorem calls_careful (hexpr : Careful inner expr) : ∀ n e, Careful inner (calls expr n e)
  | 0, e, _ => guarded_pure e
  | n + 1, e, places => by
    rw [calls]
    refine guarded_check.bind fun b => ?_
    split_ifs
    · refine (argumentList_careful hexpr places).bind fun as => ?_
      refine (members_careful hexpr n (.call e as) places).bind fun e' => ?_
      exact calls_careful hexpr n e' places
    · exact guarded_pure e

theorem objectEntry_careful (hexpr : Careful inner expr) : Careful inner (objectEntry expr) := by
  intro places
  unfold objectEntry
  refine (hexpr places).bind fun k => (guarded_expect rfl).bind fun colon => ?_
  exact (hexpr places).bind fun v => guarded_pure (k, v)

theorem leads_joinStrings : ∀ ts, Leads inner ts (joinStrings ts).2
  | [] => .refl []
  | t :: ts => by
    rw [joinStrings]
    split_ifs with hkind
    · exact .cons (kinds_of_beq rfl t hkind) (leads_joinStrings ts)
    · exact .refl (t :: ts)

/-- The curly brackets of an object are taken in pairs. -/
theorem guarded_braces {β : Type} {t : Token} {what : String} (h : Guarded inner places r)
    (f : α → β) (ht : t.kind = .openCurly) (ts : List Token) :
    GuardedAt inner places (t :: ts)
      ((do let a ← r; let _ ← expect .closeCurly what; return f a : Reader β) ts) := by
  have hopen : Leads plain (t :: ts) ts := .cons (by rw [ht]; rfl) (.refl ts)
  have hrun := h ts
  cases hr : r ts with
  | error e =>
    rw [hr] at hrun
    change GuardedAt inner places _ (r ts >>= fun p => _)
    rw [hr]
    exact hrun.imp_right (.of_leads hopen)
  | ok p =>
    obtain ⟨a, us⟩ := p
    rw [hr] at hrun
    rw [bind_eq hr]
    by_cases hclose : (next us).kind = .closeCurly
    · obtain ⟨front, rfl, hfront⟩ := hrun
      obtain ⟨w, us, rfl⟩ := exists_of_kind hclose (by decide)
      have hexpect : expect .closeCurly what (⟨.closeCurly, w.text, w.pos⟩ :: us) =
        .ok (⟨.closeCurly, w.text, w.pos⟩, us) := expect_eq rfl
      rw [bind_eq hexpect]
      exact ⟨t :: (front ++ [⟨.closeCurly, w.text, w.pos⟩]), by simp, Inner.braces ht rfl hfront⟩
    · have hfail : expect .closeCurly what us = fail (.missing what) us := by
        rw [expect, check_bind, beq_false_of_ne hclose]
        rfl
      change GuardedAt inner places _ (expect .closeCurly what us >>= fun p => _)
      rw [hfail]
      exact .inr (.of_leads (hopen.trans hrun.plain) (.next us))

/-- Only here a token is taken before it is looked at, and an end mark is complained of on the
spot. -/
theorem primary_careful (hexpr : Careful inner expr) : Careful inner (primary n expr) := by
  intro places ts
  rw [primary, advance_bind]
  rcases ts with _ | ⟨⟨kind, value, pos⟩, ts⟩
  · exact .inr (.next [])
  have htail : inner.kinds kind → Leads inner (⟨kind, value, pos⟩ :: ts) ts :=
    fun h => .cons h (.refl ts)
  rw [next_cons, List.tail_cons]
  cases kind with
  | number =>
    refine .of_leads (htail rfl) ?_
    dsimp only
    split_ifs
    · exact (guarded_pure _ : Guarded inner places _) ts
    · exact (guarded_pure _ : Guarded inner places _) ts
  | string => exact (htail rfl).trans (leads_joinStrings ts)
  | name => exact htail rfl
  | openParen =>
    refine .of_leads (htail rfl) ?_
    exact ((sequence_careful hexpr places).bind fun e =>
      (guarded_expect rfl).bind fun c => guarded_pure e) ts
  | openSquare =>
    refine .of_leads (htail rfl) ?_
    exact ((items_careful hexpr n places).bind fun es =>
      (guarded_expect rfl).bind fun c => guarded_pure (Expr.array es)) ts
  | openCurly =>
    exact guarded_braces (items_careful (objectEntry_careful hexpr) n places) Expr.object rfl ts
  | _ => exact .inr (.next _)

theorem callOrMember_careful (hexpr : Careful inner expr) :
    Careful inner (callOrMember n expr) := by
  intro places
  unfold callOrMember
  refine (primary_careful hexpr places).bind fun e => ?_
  exact (members_careful hexpr n e places).bind fun e' => calls_careful hexpr n e' places

theorem filters_careful (hexpr : Careful inner expr) : ∀ n e, Careful inner (filters expr n e)
  | 0, e, _ => guarded_pure e
  | n + 1, e, places => by
    rw [filters]
    refine (guarded_accept rfl).bind fun pipe => ?_
    split_ifs
    · refine (guarded_nameOr rfl).bind fun name => ?_
      refine (calls_careful hexpr n (.name name) places).bind fun f => ?_
      exact filters_careful hexpr n (.filter e f) places
    · exact guarded_pure e

theorem filtered_careful (hexpr : Careful inner expr) : Careful inner (filtered n expr) := by
  intro places
  unfold filtered
  exact (callOrMember_careful hexpr places).bind fun e => filters_careful hexpr n e places

theorem tests_careful : ∀ n e, Careful inner (tests n e)
  | 0, e, _ => guarded_pure e
  | n + 1, e, places => by
    rw [tests]
    refine (guarded_acceptWord rfl).bind fun is => ?_
    split_ifs
    · refine (guarded_acceptWord rfl).bind fun negated => (guarded_nameOr rfl).bind fun name => ?_
      exact tests_careful n (.test e negated name) places
    · exact guarded_pure e

theorem tested_careful (hexpr : Careful inner expr) : Careful inner (tested n expr) := by
  intro places
  unfold tested
  exact (filtered_careful hexpr places).bind fun e => tests_careful n e places

variable {op? : List Token → Option (Word × List Token)} {operand : Reader Expr}

/-- The tokens of an operator may stand in an expression. -/
def Passes (op? : List Token → Option (Word × List Token)) : Prop :=
  ∀ ts op rest, op? ts = some (op, rest) → Leads inner ts rest

theorem passes_kindOp {kind : TokenKind} (hkind : inner.kinds kind) : Passes (kindOp? kind) := by
  rintro (_ | ⟨t, ts⟩) op rest h
  · cases h
  rw [kindOp?] at h
  split_ifs at h with ht
  cases h
  exact .cons (kinds_of_beq hkind t ht) (.refl ts)

theorem passes_wordOp (word : String) : Passes (wordOp? word) := by
  rintro (_ | ⟨t, ts⟩) op rest h
  · cases h
  rw [wordOp?] at h
  split_ifs at h with ht
  cases h
  exact .cons (kinds_of_isName rfl t ht) (.refl ts)

theorem passes_comparisonOp : Passes comparisonOp? := by
  rintro (_ | ⟨t, ts⟩) op rest h
  · cases h
  rw [comparisonOp?] at h
  split_ifs at h with hnot hin
  · cases h
    rw [Bool.and_eq_true] at hnot
    cases ts with
    | nil => cases hnot.2
    | cons t' ts =>
      exact .cons (kinds_of_isName rfl t hnot.1) (.cons (kinds_of_isName rfl t' hnot.2) (.refl ts))
  · cases h
    rw [Bool.or_eq_true] at hin
    rcases hin with hin | hin
    · exact .cons (kinds_of_isName rfl t hin) (.refl _)
    · exact .cons (kinds_of_beq rfl t hin) (.refl _)

theorem operations_careful (hop : Passes op?) (hoperand : Careful inner operand) :
    ∀ n e, Careful inner (operations op? operand n e)
  | 0, e, _ => guarded_pure e
  | n + 1, e, places => by
    intro ts
    rw [operations]
    dsimp only
    cases hfound : op? ts with
    | none => exact (guarded_pure e : Guarded inner places _) ts
    | some p =>
      refine .of_leads (hop ts p.1 p.2 hfound) ?_
      exact ((hoperand places).bind fun right =>
        operations_careful hop hoperand n (.binary e p.1 right) places) p.2

theorem leftAssoc_careful (hop : Passes op?) (hoperand : Careful inner operand) :
    Careful inner (leftAssoc n op? operand) := by
  intro places
  unfold leftAssoc
  exact (hoperand places).bind fun e => operations_careful hop hoperand n e places

theorem comparison_careful (hexpr : Careful inner expr) : Careful inner (comparison n expr) :=
  leftAssoc_careful passes_comparisonOp <|
    leftAssoc_careful (passes_kindOp rfl) <| leftAssoc_careful (passes_kindOp rfl) <|
      tested_careful hexpr

theorem negation_careful (hexpr : Careful inner expr) : Careful inner (negation n expr) := by
  intro places ts
  induction ts with
  | nil => exact comparison_careful hexpr places []
  | cons t ts ih =>
    rw [negation]
    dsimp only
    split_ifs with hnot
    · refine .of_leads (.cons (kinds_of_isName rfl t hnot) (.refl ts)) ?_
      cases hrest : negation n expr ts with
      | error e =>
        rw [hrest] at ih
        exact ih
      | ok p =>
        rw [hrest] at ih
        exact ih
    · exact comparison_careful hexpr places (t :: ts)

theorem disjunction_careful (hexpr : Careful inner expr) : Careful inner (disjunction n expr) :=
  leftAssoc_careful (passes_wordOp "or") <| leftAssoc_careful (passes_wordOp "and") <|
    negation_careful hexpr

theorem condition_careful (hexpr : Careful inner expr) : Careful inner (condition n expr) := by
  intro places
  have hor : Guarded inner places (disjunction n expr) := disjunction_careful hexpr places
  unfold condition
  refine hor.bind fun value => (guarded_acceptWord rfl).bind fun cond => ?_
  split_ifs
  · refine hor.bind fun test => (guarded_acceptWord rfl).bind fun other => ?_
    split_ifs
    · exact (hexpr places).bind fun e => guarded_pure (Expr.ternary test value e)
    · exact guarded_pure (Expr.select value test)
  · exact guarded_pure value

end

theorem exprWithin_careful : ∀ n, Careful inner (exprWithin n)
  | 0, _ => guarded_fail
  | n + 1, places => condition_careful (exprWithin_careful n) places

/-! ### Statements -/

section
variable {stmt : Reader Stmt}

theorem block_careful (hstmt : Careful closed stmt) (ends : List String) :
    ∀ n, Careful closed (block stmt ends n)
  | 0, places => by
    rw [block]
    refine guarded_checkStatement.bind fun b => ?_
    split_ifs
    · exact guarded_pure []
    · exact (hstmt places).bind fun s => guarded_pure [s]
  | n + 1, places => by
    rw [block]
    refine guarded_checkStatement.bind fun b => ?_
    split_ifs
    · exact guarded_pure []
    · exact (hstmt places).bind fun s =>
        (block_careful hstmt ends n places).bind fun ss => guarded_pure (s :: ss)

/-- A statement mark and its word, which are taken where they come next. -/
theorem guarded_tag {word : String} {yes no : Reader α} (hyes : Guarded closed places yes)
    (hno : Guarded closed places no) : Guarded closed places (do
      if ← checkStatement [word] then
        let _ ← advance
        let _ ← advance
        yes
      else no) := by
  intro ts
  obtain ⟨b, hcheck⟩ : ∃ b, checkStatement [word] ts = .ok (b, ts) := ⟨_, rfl⟩
  rw [bind_eq hcheck]
  cases b with
  | false => exact hno ts
  | true =>
    obtain ⟨o, pos, us, rfl, -⟩ := exists_of_checkStatement hcheck
    exact .of_leads (.cons rfl (.cons rfl (.refl us))) (hyes us)

theorem endStatement_guarded {word : String} : Guarded closed places (endStatement word) := by
  unfold endStatement openMark closeMark
  refine (guarded_expect rfl).bind fun o => (guarded_expectWord rfl).bind fun t => ?_
  exact (guarded_expect rfl).bind fun c => guarded_pure ()

theorem assignment_careful (hstmt : Careful closed stmt) : Careful closed (assignment n stmt) := by
  intro places
  have hexpr := (sequence_careful (n := n) (exprWithin_careful n)).closed places
  unfold assignment closeStatement closeMark openMark
  refine hexpr.bind fun target => (guarded_accept rfl).bind fun equals => ?_
  split_ifs
  · refine hexpr.bind fun value => (guarded_expect rfl).bind fun c => ?_
    exact guarded_pure (Stmt.assign target value)
  · refine (guarded_expect rfl).bind fun c => (block_careful hstmt _ n places).bind ?_
    intro body
    refine (guarded_expect rfl).bind fun o => (guarded_expectWord rfl).bind fun t => ?_
    exact (guarded_expect rfl).bind fun c => guarded_pure (Stmt.capture target body)

theorem choice_careful (hstmt : Careful closed stmt) : ∀ n, Careful closed (choice stmt n)
  | 0, _ => guarded_fail
  | n + 1, places => by
    unfold choice closeStatement
    refine ((exprWithin_careful _).closed places).bind fun test => (guarded_expect rfl).bind ?_
    intro c
    refine (block_careful hstmt _ n places).bind fun body => guarded_tag ?_ (guarded_tag ?_ ?_)
    · exact (choice_careful hstmt n places).bind fun s => guarded_pure (Stmt.choice test body [s])
    · refine (guarded_expect rfl).bind fun c => (block_careful hstmt _ n places).bind ?_
      exact fun alternate => guarded_pure (Stmt.choice test body alternate)
    · exact guarded_pure (Stmt.choice test body [])

theorem loop_careful (hstmt : Careful closed stmt) : Careful closed (loop n stmt) := by
  intro places
  unfold loop closeStatement
  have htarget := sequence_careful (n := n) (primary_careful (n := n) (exprWithin_careful n))
  refine (htarget.closed places).bind fun e => ?_
  split
  · exact guarded_fail
  · rename_i target _
    refine (guarded_acceptWord rfl).bind fun b => ?_
    split_ifs
    · refine ((exprWithin_careful n).closed places).bind fun iterable => ?_
      refine (guarded_expect rfl).bind fun c => (block_careful hstmt _ n places).bind ?_
      intro body
      refine guarded_tag ((guarded_expect rfl).bind fun c => ?_)
        (guarded_pure (Stmt.loop target iterable body []))
      exact (block_careful hstmt _ n places).bind fun alternate =>
        guarded_pure (Stmt.loop target iterable body alternate)
    · exact guarded_fail

theorem primaryName_careful {cause : GrammarCause} : Careful closed (primaryName n cause) := by
  intro places
  unfold primaryName
  refine ((primary_careful (exprWithin_careful n)).closed places).bind fun e => ?_
  split
  · exact guarded_pure _
  · exact guarded_fail

theorem macroDefinition_careful (hstmt : Careful closed stmt) :
    Careful closed (macroDefinition n stmt) := by
  intro places
  unfold macroDefinition closeStatement
  refine (primaryName_careful places).bind fun name => ?_
  refine ((argumentList_careful (exprWithin_careful n)).closed places).bind fun params => ?_
  refine (guarded_expect rfl).bind fun c => (block_careful hstmt _ n places).bind ?_
  exact fun body => guarded_pure (Stmt.defineMacro name params body)

theorem callBlock_careful (hstmt : Careful closed stmt) : Careful closed (callBlock n stmt) := by
  intro places
  have hargs := (argumentList_careful (n := n) (exprWithin_careful n)).closed places
  have hcallee : ∀ params : Option (List Arg), Guarded closed places (do
      let callee ← primaryName n .namelessCall
      let args ← argumentList n (exprWithin n)
      let _ ← closeStatement
      let body ← block stmt ["endcall"] n
      endStatement "endcall"
      return Stmt.callBlock callee args params body) := by
    intro params
    unfold closeStatement
    refine (primaryName_careful places).bind fun callee => hargs.bind fun args => ?_
    refine (guarded_expect rfl).bind fun c => (block_careful hstmt _ n places).bind ?_
    exact fun body => endStatement_guarded.bind fun _ => guarded_pure _
  unfold callBlock
  refine guarded_check.bind fun b => ?_
  cases b with
  | true => exact hargs.map.bind hcallee
  | false => exact (guarded_pure none).bind hcallee

theorem filterBlock_careful (hstmt : Careful closed stmt) :
    Careful closed (filterBlock n stmt) := by
  intro places
  have hbody : ∀ f : Expr, Guarded closed places (do
      let _ ← closeStatement
      let body ← block stmt ["endfilter"] n
      endStatement "endfilter"
      return Stmt.filterBlock f body) := by
    intro f
    unfold closeStatement
    refine (guarded_expect rfl).bind fun c => (block_careful hstmt _ n places).bind ?_
    exact fun body => endStatement_guarded.bind fun _ => guarded_pure _
  unfold filterBlock
  refine ((primary_careful (exprWithin_careful n)).closed places).bind fun e => ?_
  cases e with
  | name w => exact ((calls_careful (exprWithin_careful n) n _).closed places).bind hbody
  | _ => exact (guarded_pure _).bind hbody

theorem control_careful {signal : LoopSignal} {t : Token} : Careful closed (control signal t) := by
  intro places
  unfold control closeStatement
  exact (guarded_expect rfl).bind fun c => guarded_pure _

/-- A statement that ends with a statement of one word. -/
theorem guarded_ended {r : Reader Stmt} {word : String} (h : Guarded closed places r) :
    Guarded closed places (do let s ← r; endStatement word; return s) :=
  h.bind fun s => endStatement_guarded.bind fun _ => guarded_pure s

/-- A statement of an unknown word is complained of at the word. -/
theorem statement_careful (hstmt : Careful closed stmt) : Careful closed (statement n stmt) := by
  intro places ts
  rw [statement, check_bind]
  split_ifs with hname
  · exact guarded_fail ts
  have hkind : (next ts).kind = .name := by simpa using hname
  obtain ⟨⟨word, pos⟩, us, rfl⟩ := exists_of_kind hkind (by decide)
  have htail : Leads closed (⟨.name, word, pos⟩ :: us) us := .cons rfl (.refl us)
  rw [peek_bind, next_cons]
  dsimp only
  split
  · exact .of_leads htail (assignment_careful hstmt places us)
  · exact .of_leads htail (guarded_ended (choice_careful hstmt n places) us)
  · exact .of_leads htail (guarded_ended (macroDefinition_careful hstmt places) us)
  · exact .of_leads htail (guarded_ended (loop_careful hstmt places) us)
  · exact .of_leads htail (callBlock_careful hstmt places us)
  · exact .of_leads htail (filterBlock_careful hstmt places us)
  · exact .of_leads htail (control_careful places us)
  · exact .of_leads htail (control_careful places us)
  · exact .inr (.next _)

theorem piece_careful (hstmt : Careful closed stmt) : Careful closed (piece n stmt) := by
  rintro places (_ | ⟨⟨kind, value, pos⟩, ts⟩)
  · exact .inr (.next [])
  have htail : closed.kinds kind → Leads closed (⟨kind, value, pos⟩ :: ts) ts :=
    fun h => .cons h (.refl ts)
  rw [piece, peek_bind, next_cons]
  cases kind with
  | comment => exact htail rfl
  | text => exact htail rfl
  | openStatement => exact .of_leads (htail rfl) (statement_careful hstmt places ts)
  | openExpression =>
    refine .of_leads (htail rfl) ?_
    exact (((exprWithin_careful n).closed places).bind fun e =>
      (guarded_expect rfl).bind fun c => guarded_pure (Stmt.output e)) ts
  | _ => exact .inr (.next _)

end

theorem stmtWithin_careful : ∀ n, Careful closed (stmtWithin n)
  | 0, _ => guarded_fail
  | n + 1, places => piece_careful (stmtWithin_careful n) places

theorem statements_careful : ∀ n, Careful closed (statements n)
  | 0, _ => guarded_pure []
  | n + 1, places => by
    rw [statements]
    refine guarded_check.bind fun b => ?_
    split_ifs
    · exact guarded_pure []
    · exact (stmtWithin_careful _ places).bind fun s =>
        (statements_careful n places).bind fun ss => guarded_pure (s :: ss)

end ChatTemplate.Grammar
