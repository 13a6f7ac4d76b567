import ChatTemplate.Proofs.Grammar.Takes

/-!
# What is read for an expression spells it

One lemma for each rule of the grammar of expressions, with the rules of `Spelled`. A rule that goes
on behind an operand turns what spells the operand into what spells its answer (`Continues`).
-/

namespace ChatTemplate.Grammar
open Reader Chunk

variable {α : Type} {n : Nat} {ts rest : List Token}

/-! ### Lists -/

variable {item : Reader α} {f : α → Phrase} {expr : Reader Expr} {e : Expr}

theorem items_takes {close : TokenKind} (hitem : Takes item fun a => Spelled (f a)) :
    ∀ n, Takes (items close item n) fun as => Spelled (.list (as.map f))
  | 0 => by
    rw [items]
    refine takes_check fun b => ?_
    split_ifs
    · exact takes_pure .noItem
    · exact hitem.bind fun a ps ha => takes_pure (by simpa using ha.lastItem)
  | n + 1 => by
    rw [items]
    refine takes_check fun b => ?_
    split_ifs
    · exact takes_pure .noItem
    · refine hitem.bind fun a ps ha => takes_accept rfl (fun w => ?_) ?_
      · exact (items_takes hitem n).bind fun as qs has => takes_pure (by simpa using ha.item has)
      · exact takes_pure (by simpa using ha.lastItem)

theorem moreItems_takes (hitem : Takes item fun a => Spelled (f a)) : ∀ n,
    Takes (moreItems item n) fun as qs =>
      ∀ x ps, Spelled x ps → Spelled (.list (x :: as.map f)) (ps ++ qs)
  | 0 => takes_pure fun x ps hx => by simpa using hx.lastItem
  | n + 1 => by
    rw [moreItems]
    refine takes_accept rfl (fun w => ?_) ?_
    · refine hitem.bind fun a ps ha => (moreItems_takes hitem n).bind fun as qs has => ?_
      refine takes_pure fun x us hx => ?_
      simpa using hx.item (has (f a) ps ha)
    · exact takes_pure fun x ps hx => by simpa using hx.lastItem

/-- What the reader of expressions takes spells the expression. -/
abbrev TakesExpr (expr : Reader Expr) : Prop := Takes expr fun e => Spelled (.expr e)

theorem sequence_takes (hexpr : TakesExpr expr) : TakesExpr (sequence n expr) := by
  unfold sequence
  refine hexpr.bind fun e ps he => takes_check fun b => ?_
  split_ifs
  · refine (moreItems_takes hexpr n).bind fun es qs hes => takes_pure ?_
    have htuple : Spelled (.expr (.tuple (e :: es))) (ps ++ qs) := .tuple (hes (.expr e) ps he)
    simpa using htuple
  · exact takes_pure (by simpa using he)

/-! ### Arguments -/

theorem argument_takes (hexpr : TakesExpr expr) (named : Bool) :
    Takes (argument expr named) fun p => Spelled (.arg p.1) := by
  intro ts p rest h
  rw [argument, peek_bind] at h
  by_cases hstar : (next ts).kind == .multiplicative && (next ts).value == "*"
  · rw [if_pos hstar] at h
    rw [Bool.and_eq_true, beq_iff_eq, beq_iff_eq] at hstar
    obtain ⟨w, us, rfl⟩ := exists_of_kind hstar.1 nofun
    have hspread : Takes (do return (Arg.spread (← expr), named)) fun p ps =>
        ∀ pos, Spelled (.arg p.1) (.mark .multiplicative ⟨"*", pos⟩ :: ps) :=
      hexpr.bind fun e ps he => takes_pure fun pos => by simpa using he.spread
    obtain ⟨ps, rfl, hps⟩ := hspread us p rest h
    refine ⟨_, ?_, hps w.pos⟩
    rw [show w.text = "*" from hstar.2]
    rfl
  · rw [if_neg hstar] at h
    refine (?_ : Takes _ fun p => Spelled (.arg p.1)) ts p rest h
    refine hexpr.bind fun e ps he => takes_accept rfl (fun w => ?_) ?_
    · rw [if_pos rfl]
      split
      · exact hexpr.bind fun e qs hv => takes_pure (by simpa using he.keyword hv)
      · exact takes_failAt
    · rw [if_neg nofun]
      split_ifs
      · exact takes_failAt
      · exact takes_pure (by simpa using he.positional)

theorem arguments_takes (hexpr : TakesExpr expr) : ∀ named n,
    Takes (arguments expr named n) fun as => Spelled (.list (as.map .arg))
  | named, 0 => by
    rw [arguments]
    refine takes_check fun b => ?_
    split_ifs
    · exact takes_pure .noItem
    · refine (argument_takes hexpr named).bind fun p ps hp => takes_accept rfl (fun w => ?_) ?_
      · exact takes_pure (by simpa using hp.item .noItem)
      · exact takes_pure (by simpa using hp.lastItem)
  | named, n + 1 => by
    rw [arguments]
    refine takes_check fun b => ?_
    split_ifs
    · exact takes_pure .noItem
    · refine (argument_takes hexpr named).bind fun p ps hp => takes_accept rfl (fun w => ?_) ?_
      · exact (arguments_takes hexpr p.2 n).bind fun as qs has =>
          takes_pure (by simpa using hp.item has)
      · exact takes_pure (by simpa using hp.lastItem)

theorem argumentList_takes (hexpr : TakesExpr expr) :
    Takes (argumentList n expr) fun as => Spelled (.args (some as)) := by
  unfold argumentList
  refine takes_expect rfl fun o => (arguments_takes hexpr false n).bind fun as ps has => ?_
  exact takes_expect rfl fun c => takes_pure (by simpa [between] using has.args)

/-! ### Postfixes -/

theorem subscriptParts_takes (hexpr : TakesExpr expr) : ∀ n,
    Takes (subscriptParts expr n) fun p => Spelled (.parts p.2 p.1)
  | 0 => by
    rw [subscriptParts]
    refine takes_check fun b => ?_
    split_ifs
    · exact takes_pure .noPart
    · exact hexpr.bind fun e ps he => takes_pure (by simpa using he.lastPart .noPart)
  | n + 1 => by
    have ih := subscriptParts_takes hexpr n
    rw [subscriptParts]
    refine takes_check fun b => ?_
    split_ifs
    · exact takes_pure .noPart
    · refine takes_accept rfl (fun w => ?_) ?_
      · exact ih.bind fun p ps hp => takes_pure (by simpa using hp.absentPart)
      · refine hexpr.bind fun e ps he => takes_accept rfl (fun w => ?_) ?_
        · exact ih.bind fun p qs hp => takes_pure (by simpa using he.part hp)
        · exact ih.bind fun p qs hp => takes_pure (by simpa using he.lastPart hp)

/-- The chunks turn what spells `e` into what spells `e'`. -/
def Continues (e e' : Expr) (qs : List Chunk) : Prop :=
  ∀ ps, Spelled (.expr e) ps → Spelled (.expr e') (ps ++ qs)

theorem Continues.refl : Continues e e [] := fun ps he => by simpa using he

theorem Continues.trans {e' e'' : Expr} {ps qs : List Chunk} (h : Continues e e' ps)
    (h' : Continues e' e'' qs) : Continues e e'' (ps ++ qs) :=
  fun us he => by simpa using h' _ (h us he)

/-- What stands between the brackets of a subscript: the parts of a slice, or a key, which may have
further expressions behind it. -/
inductive Subscripted : List (Option Expr) × Bool → List Chunk → Prop
  | slice {parts ps} (h : Spelled (.parts true parts) ps) : Subscripted (parts, true) ps
  | key {e more ps qs} (he : Spelled (.expr e) ps) (hmore : Spelled (.parts false more) qs) :
    Subscripted (some e :: more, false) (ps ++ qs.map .dropped)
  | nothing : Subscripted ([], false) []

theorem subscripted_of_parts {p : List (Option Expr) × Bool} {ps : List Chunk}
    (h : Spelled (.parts p.2 p.1) ps) : ∃ qs, flat qs = flat ps ∧ Subscripted p qs := by
  obtain ⟨parts, _ | _⟩ := p
  · cases h with
    | noPart => exact ⟨[], rfl, .nothing⟩
    | lastPart he hmore => exact ⟨_, by simp, .key he hmore⟩
  · exact ⟨ps, rfl, .slice h⟩

theorem subscript_takes (hexpr : TakesExpr expr) :
    Takes (subscript n expr e) fun e' qs => (e.invoked → e'.invoked) ∧
      ∀ o c, Continues e e' (between o c qs (o := .openSquare) (c := .closeSquare)) := by
  intro ts e' rest h
  rw [subscript, peek_bind] at h
  refine (?_ : Takes _ fun e' qs => (e.invoked → e'.invoked) ∧
    ∀ o c, Continues e e' (between o c qs (o := .openSquare) (c := .closeSquare))) ts e' rest h
  refine ((subscriptParts_takes hexpr n).recut fun p ps => subscripted_of_parts).bind
    fun p qs hp => ?_
  cases hp with
  | slice hparts =>
    dsimp only
    rw [if_pos rfl]
    split
    · exact takes_pure ⟨id, fun o c ps he => by simpa using he.slice hparts (by simp)⟩
    · exact takes_pure ⟨id, fun o c ps he => by simpa using he.slice hparts (by simp)⟩
    · exact takes_pure ⟨id, fun o c ps he => by simpa using he.slice hparts (by simp)⟩
    · exact takes_failAt
  | key hkey hmore =>
    exact takes_pure ⟨id, fun o c ps he => by simpa using he.index hkey hmore⟩
  | nothing => exact takes_failAt

theorem members_takes (hexpr : TakesExpr expr) : ∀ n e,
    Takes (members expr n e) fun e' qs => (e.invoked → e'.invoked) ∧ Continues e e' qs
  | 0, e => takes_pure ⟨id, .refl⟩
  | n + 1, e => by
    rw [members]
    refine takes_accept rfl (fun w => ?_) (takes_accept rfl (fun w => ?_) ?_)
    · rw [if_pos rfl]
      refine (subscript_takes hexpr).bind fun e₁ ps h₁ => takes_expect rfl fun c => ?_
      refine (members_takes hexpr n e₁).mono fun e₂ qs h₂ => ⟨h₂.1 ∘ h₁.1, ?_⟩
      simpa [between] using (h₁.2 w c.word).trans h₂.2
    · rw [if_pos rfl]
      refine takes_nameOr fun name => ?_
      refine (members_takes hexpr n (.member e name)).mono fun e₂ qs h₂ => ⟨h₂.1, ?_⟩
      have h₁ : Continues e (.member e name) [.mark .dot w, .leaf .name name] := fun ps he => he.member
      exact h₁.trans h₂.2
    · exact takes_pure ⟨id, .refl⟩

theorem calls_takes (hexpr : TakesExpr expr) : ∀ n e,
    Takes (calls expr n e) fun e' qs => (e.filterForm → e'.filterForm) ∧ Continues e e' qs
  | 0, e => takes_pure ⟨id, .refl⟩
  | n + 1, e => by
    rw [calls]
    refine takes_check fun b => ?_
    split_ifs
    · refine (argumentList_takes hexpr).bind fun as ps has => ?_
      refine (members_takes hexpr n (.call e as)).bind fun e₁ qs h₁ => ?_
      refine (calls_takes hexpr n e₁).mono fun e₂ us h₂ => ⟨fun he => h₂.1 ?_, ?_⟩
      · rw [Expr.filterForm, h₁.1 he, Bool.or_true]
      · have h₀ : Continues e (.call e as) ps := fun ps he => he.call has
        exact h₀.trans (h₁.2.trans h₂.2)
    · exact takes_pure ⟨id, .refl⟩

/-! ### Operands -/

theorem exists_joinStrings : ∀ ts : List Token, ∃ more : List Word,
    ts = more.map (fun w => ⟨.string, w.text, w.pos⟩) ++ (joinStrings ts).2 ∧
      (joinStrings ts).1 = String.join (more.map Word.text)
  | [] => ⟨[], rfl, rfl⟩
  | t :: ts => by
    rw [joinStrings]
    split_ifs with hkind
    · obtain ⟨more, hts, htext⟩ := exists_joinStrings ts
      refine ⟨t.word :: more, ?_, ?_⟩
      · rw [beq_iff_eq] at hkind
        rw [List.map_cons, List.cons_append, ← hts, ← hkind]
        rfl
      · dsimp only
        rw [htext]
        rw [List.map_cons, String.join_cons]
        rfl
    · exact ⟨[], rfl, rfl⟩

theorem nameExpr_spelled (w : Word) : Spelled (.expr (nameExpr w)) [.leaf .name w] ∧
    (beginWithName [.leaf .name w] → (nameExpr w).isName) := by
  unfold nameExpr
  split_ifs with hbool hnull
  · exact ⟨.bool hbool, by simp [beginWithName, Chunk.tokens, Token.isPlainName, hbool]⟩
  · exact ⟨.null hnull, by simp [beginWithName, Chunk.tokens, Token.isPlainName, hnull]⟩
  · exact ⟨.name w, fun _ => rfl⟩

theorem takes_objectEntry (hexpr : TakesExpr expr) :
    Takes (objectEntry expr) fun p => Spelled (.entry p.1 p.2) := by
  unfold objectEntry
  refine hexpr.bind fun k ps hk => takes_expect rfl fun m => ?_
  exact hexpr.bind fun v qs hv => takes_pure (by simpa using hk.entry hv)

theorem not_beginWithName_of_mark {kind : TokenKind} {w : Word} {ps : List Chunk}
    (hkind : kind.isMark) : ¬ beginWithName (.mark kind w hkind :: ps) := by
  cases kind with
  | name => cases hkind
  | _ => exact nofun

theorem Takes.behind {r : Reader Expr} {kind : TokenKind} {w : Word} (hkind : kind.isMark)
    (htakes : Takes r fun e ps => Spelled (.expr e) (.mark kind w hkind :: ps))
    (h : r ts = .ok (e, rest)) : ∃ ps, ⟨kind, w.text, w.pos⟩ :: ts = flat ps ++ rest ∧
      Spelled (.expr e) ps ∧ (beginWithName ps → e.isName) := by
  obtain ⟨ps, rfl, he⟩ := htakes ts e rest h
  exact ⟨_, rfl, he, fun hbegin => absurd hbegin (not_beginWithName_of_mark hkind)⟩

theorem primary_takes (hexpr : TakesExpr expr) : Takes (primary n expr) fun e ps =>
    Spelled (.expr e) ps ∧ (beginWithName ps → e.isName) := by
  rintro (_ | ⟨⟨kind, value, pos⟩, ts⟩) e rest h
  · cases h
  rw [primary, advance_bind, next_cons, List.tail_cons] at h
  cases kind with
  | number =>
    dsimp only at h
    split_ifs at h with hpoint
    · cases h
      exact ⟨[.leaf .number ⟨value, pos⟩], rfl, .float (List.mem_of_elem_eq_true hpoint), nofun⟩
    · cases h
      exact ⟨[.leaf .number ⟨value, pos⟩], rfl, .int (by simpa [Token.word] using hpoint), nofun⟩
  | string =>
    obtain ⟨more, hts, htext⟩ := exists_joinStrings ts
    cases h
    refine ⟨[.strings ⟨value, pos⟩ more], ?_, ?_, nofun⟩
    · simpa [Chunk.tokens] using hts
    · rw [htext]
      exact .string ⟨value, pos⟩ more
  | name =>
    cases h
    exact ⟨[.leaf .name ⟨value, pos⟩], rfl, nameExpr_spelled ⟨value, pos⟩⟩
  | openParen =>
    refine Takes.behind (w := ⟨value, pos⟩) rfl ?_ h
    exact (sequence_takes hexpr).bind fun e ps he =>
      takes_expect rfl fun c => takes_pure he.parens
  | openSquare =>
    refine Takes.behind (w := ⟨value, pos⟩) rfl ?_ h
    exact (items_takes hexpr n).bind fun es ps hes =>
      takes_expect rfl fun c => takes_pure hes.array
  | openCurly =>
    refine Takes.behind (w := ⟨value, pos⟩) rfl ?_ h
    exact (items_takes (takes_objectEntry hexpr) n).bind fun entries ps h =>
      takes_expect rfl fun c => takes_pure h.object
  | _ => cases h

theorem callOrMember_takes (hexpr : TakesExpr expr) : TakesExpr (callOrMember n expr) := by
  unfold callOrMember
  refine (primary_takes hexpr).bind fun e ps he => ?_
  refine (members_takes hexpr n e).bind fun e₁ qs h₁ => ?_
  refine (calls_takes hexpr n e₁).mono fun e₂ us h₂ => ?_
  exact h₁.2.trans h₂.2 ps he.1

theorem filters_takes (hexpr : TakesExpr expr) : ∀ n e, Takes (filters expr n e) (Continues e)
  | 0, e => takes_pure .refl
  | n + 1, e => by
    rw [filters]
    refine takes_accept rfl (fun m => ?_) (takes_pure .refl)
    rw [if_pos rfl]
    refine takes_nameOr fun name => (calls_takes hexpr n (.name name)).bind fun f ps hf => ?_
    refine (filters_takes hexpr n (.filter e f)).mono fun e' qs he' => ?_
    have hfilter : Continues e (.filter e f) (.mark .pipe m :: .leaf .name name :: ps) :=
      fun us he => he.filter (hf.2 _ (.name name)) (hf.1 rfl)
    exact hfilter.trans he'

theorem filtered_takes (hexpr : TakesExpr expr) : TakesExpr (filtered n expr) := by
  unfold filtered
  refine (callOrMember_takes hexpr).bind fun e ps he => ?_
  exact (filters_takes hexpr n e).mono fun e' qs he' => he' ps he

/-! ### Operators -/

theorem tests_takes : ∀ n e, Takes (tests n e) (Continues e)
  | 0, e => takes_pure .refl
  | n + 1, e => by
    rw [tests]
    refine takes_acceptWord (by decide) (fun pos => ?_) (takes_pure .refl)
    rw [if_pos rfl]
    refine takes_acceptWord (by decide) (fun notPos => takes_nameOr fun name => ?_)
      (takes_nameOr fun name => ?_)
    · refine (tests_takes n (.test e true name)).mono fun e' ps he' => ?_
      have htest : Continues e (.test e true name)
          [.keyword "is" pos, .keyword "not" notPos, .leaf .name name] := fun qs he => he.testNot
      exact htest.trans he'
    · refine (tests_takes n (.test e false name)).mono fun e' ps he' => ?_
      have htest : Continues e (.test e false name) [.keyword "is" pos, .leaf .name name] :=
        fun qs he => he.test
      exact htest.trans he'

theorem tested_takes (hexpr : TakesExpr expr) : TakesExpr (tested n expr) := by
  unfold tested
  refine (filtered_takes hexpr).bind fun e ps he => ?_
  exact (tests_takes n e).mono fun e' qs he' => he' ps he

/-- The operator that is found makes a binary expression of what stands around it. -/
def Finds (op? : List Token → Option (Word × List Token)) : Prop :=
  ∀ ts op rest, op? ts = some (op, rest) → ∃ p : Chunk, ts = p.tokens ++ rest ∧
    ∀ l r ps qs, Spelled (.expr l) ps → Spelled (.expr r) qs →
      Spelled (.expr (.binary l op r)) (ps ++ p :: qs)

variable {op? : List Token → Option (Word × List Token)}

theorem operations_takes {operand : Reader Expr} (hop : Finds op?) (hoperand : TakesExpr operand) :
    ∀ n e, Takes (operations op? operand n e) (Continues e)
  | 0, e => takes_pure .refl
  | n + 1, e => by
    intro ts e' rest h
    rw [operations] at h
    dsimp only at h
    cases hfound : op? ts with
    | none =>
      rw [hfound] at h
      cases h
      exact ⟨[], rfl, .refl⟩
    | some p =>
      obtain ⟨op, us⟩ := p
      obtain ⟨p, rfl, hbinary⟩ := hop ts op us hfound
      rw [hfound] at h
      have htakes : Takes (operand >>= fun r => operations op? operand n (.binary e op r))
          fun e' qs => Continues e e' (p :: qs) := by
        refine hoperand.bind fun r ps hr => ?_
        refine (operations_takes hop hoperand n (.binary e op r)).mono fun e' qs he' => ?_
        have hcontinues : Continues e (.binary e op r) (p :: ps) :=
          fun us he => hbinary e r us ps he hr
        exact hcontinues.trans he'
      obtain ⟨qs, rfl, hqs⟩ := htakes us e' rest h
      exact ⟨p :: qs, by simp, hqs⟩

theorem leftAssoc_takes {operand : Reader Expr} (hop : Finds op?) (hoperand : TakesExpr operand) :
    TakesExpr (leftAssoc n op? operand) := by
  unfold leftAssoc
  refine hoperand.bind fun e ps he => ?_
  exact (operations_takes hop hoperand n e).mono fun e' qs he' => he' ps he

theorem finds_kindOp {kind : TokenKind} (hkind : kind.hasContent ∨ kind.isOperator) :
    Finds (kindOp? kind) := by
  rintro (_ | ⟨t, ts⟩) op rest h
  · cases h
  rw [kindOp?] at h
  split_ifs at h with ht
  cases h
  obtain ⟨kind', value, pos⟩ := t
  obtain rfl : kind' = kind := beq_iff_eq.mp ht
  exact ⟨.leaf kind' ⟨value, pos⟩ hkind, rfl, fun l r ps qs hl hr => hl.binary hr⟩

theorem isName_iff {word : String} {t : Token} :
    isName word t = true ↔ t = ⟨.name, word, t.pos⟩ := by
  obtain ⟨kind, value, pos⟩ := t
  simp [isName]

theorem finds_wordOp (word : String) : Finds (wordOp? word) := by
  rintro (_ | ⟨t, ts⟩) op rest h
  · cases h
  rw [wordOp?] at h
  split_ifs at h with ht
  cases h
  rw [isName_iff.mp ht]
  exact ⟨.leaf .name ⟨word, t.pos⟩, rfl, fun l r ps qs hl hr => hl.binary hr⟩

theorem finds_comparisonOp : Finds comparisonOp? := by
  rintro (_ | ⟨t, ts⟩) op rest h
  · cases h
  rw [comparisonOp?] at h
  split_ifs at h with hnot hin
  · cases h
    rw [Bool.and_eq_true] at hnot
    obtain ⟨hnot, hin⟩ := hnot
    cases ts with
    | nil => cases hin
    | cons t' ts =>
      rw [isName_iff.mp hnot, isName_iff.mp (show isName "in" t' = true from hin)]
      exact ⟨.notIn t.pos t'.pos, rfl, fun l r ps qs hl hr => hl.notIn hr⟩
  · cases h
    rw [Bool.or_eq_true, beq_iff_eq] at hin
    have hkind : t.kind.hasContent ∨ t.kind.isOperator := by
      rcases hin with hin | hin
      · rw [isName_iff.mp hin]
        exact .inl rfl
      · rw [hin]
        exact .inr rfl
    exact ⟨.leaf t.kind t.word hkind, rfl, fun l r ps qs hl hr => hl.binary hr⟩

theorem comparison_takes (hexpr : TakesExpr expr) : TakesExpr (comparison n expr) :=
  leftAssoc_takes finds_comparisonOp <|
    leftAssoc_takes (finds_kindOp (.inr rfl)) <|
      leftAssoc_takes (finds_kindOp (.inr rfl)) <| tested_takes hexpr

theorem negation_takes (hexpr : TakesExpr expr) : TakesExpr (negation n expr) := by
  intro ts
  induction ts with
  | nil => exact comparison_takes hexpr []
  | cons t ts ih =>
    intro e rest h
    rw [negation] at h
    split_ifs at h with hnot
    · cases hrest : negation n expr ts with
      | error fault =>
        rw [hrest] at h
        cases h
      | ok p =>
        rw [hrest] at h
        cases h
        obtain ⟨ps, rfl, hps⟩ := ih p.1 p.2 hrest
        rw [isName_iff.mp hnot]
        exact ⟨_, rfl, hps.unary⟩
    · exact comparison_takes hexpr (t :: ts) e rest h

theorem disjunction_takes (hexpr : TakesExpr expr) : TakesExpr (disjunction n expr) :=
  leftAssoc_takes (finds_wordOp "or") <| leftAssoc_takes (finds_wordOp "and") <|
    negation_takes hexpr

theorem condition_takes (hexpr : TakesExpr expr) : TakesExpr (condition n expr) := by
  have hor : TakesExpr (disjunction n expr) := disjunction_takes hexpr
  unfold condition
  refine hor.bind fun v ps hv => takes_acceptWord (by decide) (fun pos => ?_) ?_
  · refine hor.bind fun t qs ht => takes_acceptWord (by decide) (fun elsePos => ?_) ?_
    · exact hexpr.bind fun e us he => takes_pure (by simpa using hv.ternary ht he)
    · exact takes_pure (by simpa using hv.select ht)
  · exact takes_pure (by simpa using hv)

theorem exprWithin_takes : ∀ n, TakesExpr (exprWithin n)
  | 0 => takes_fail
  | n + 1 => condition_takes (exprWithin_takes n)

end ChatTemplate.Grammar
