import Mathlib.Data.List.Chain
import ChatTemplate.Proofs.Grammar.Takes
import ChatTemplate.Proofs.Grammar.Schema

/-!
# How filters are written

The grammar reads a filter as it reads a call, with what follows: members, subscripts, more calls.
Whether it does can be seen from the tokens (`PlainFilters`): parentheses are balanced in whatever
is accepted (`Spelled.balanced`), so the arguments of a filter end at the first parenthesis that
closes what they open (`Spelled.filter_tokens`).
-/

namespace ChatTemplate
open Chunk Grammar Reader

/-! ### Parentheses -/

/-- How many parentheses are open behind the tokens, if `n` are before them. -/
def openParens : List Token → Nat → Option Nat
  | [], n => some n
  | t :: ts, n =>
    match t.kind, n with
    | .openParen, n => openParens ts (n + 1)
    | .closeParen, 0 => none
    | .closeParen, n + 1 => openParens ts n
    | _, n => openParens ts n

section
variable (n : Nat)

theorem openParens_append (ts us : List Token) :
    openParens (ts ++ us) n = (openParens ts n).bind (openParens us) := by
  induction ts generalizing n with
  | nil => rfl
  | cons t ts ih =>
    obtain ⟨kind, s, pos⟩ := t
    cases kind with
    | openParen => exact ih (n + 1)
    | closeParen =>
      cases n with
      | zero => rfl
      | succ n => exact ih n
    | _ => exact ih n

theorem openParens_flat_append (ps qs : List Chunk) :
    openParens (flat (ps ++ qs)) n = (openParens (flat ps) n).bind (openParens (flat qs)) := by
  rw [flat_append, openParens_append]

theorem openParens_cons {t : Token} (ts : List Token) (ho : t.kind ≠ .openParen)
    (hc : t.kind ≠ .closeParen) : openParens (t :: ts) n = openParens ts n := by
  obtain ⟨kind, s, pos⟩ := t
  cases kind with
  | openParen => exact absurd rfl ho
  | closeParen => exact absurd rfl hc
  | _ => rfl

theorem openParens_leaf {kind : TokenKind} (h : kind.hasContent ∨ kind.isOperator) (w : Word)
    (ps : List Chunk) : openParens (flat (.leaf kind w h :: ps)) n = openParens (flat ps) n := by
  refine openParens_cons n (flat ps) ?_ ?_
  all_goals
    rintro rfl
    exact absurd h (by decide)

theorem openParens_strings (w : Word) (more : List Word) (ps : List Chunk) :
    openParens (flat (.strings w more :: ps)) n = openParens (flat ps) n := by
  induction more generalizing w with
  | nil => exact openParens_cons n (flat ps) nofun nofun
  | cons w' more ih => exact ih w'

theorem openParens_notIn (pos inPos : Pos) (ps : List Chunk) :
    openParens (flat (.notIn pos inPos :: ps)) n = openParens (flat ps) n :=
  rfl

theorem openParens_keyword {text : String} (pos : Pos) (h : text ∈ keywords) (ps : List Chunk) :
    openParens (flat (.keyword text pos h :: ps)) n = openParens (flat ps) n :=
  rfl

theorem openParens_mark {kind : TokenKind} (w : Word) (h : kind.isMark) (ps : List Chunk)
    (ho : kind ≠ .openParen) (hc : kind ≠ .closeParen) :
    openParens (flat (.mark kind w h :: ps)) n = openParens (flat ps) n :=
  openParens_cons n (flat ps) ho hc

theorem openParens_nil : openParens (flat []) n = some n := rfl

theorem openParens_opening {text : String} (o : Word) (pos : Pos) (h : text ∈ keywords) :
    openParens (flat (opening o text pos h)) n = some n :=
  rfl

theorem openParens_close (c : Word) (ps : List Chunk) :
    openParens (flat (close c :: ps)) n = openParens (flat ps) n :=
  rfl

theorem openParens_ending {text : String} (o c : Word) (pos : Pos) (h : text ∈ keywords) :
    openParens (flat (ending o c text pos h)) n = some n :=
  rfl

theorem flat_between {o c : TokenKind} (wo wc : Word) (ps : List Chunk) (ho : o.isMark)
    (hc : c.isMark) : flat (between wo wc ps ho hc) =
      ⟨o, wo.text, wo.pos⟩ :: (flat ps ++ [⟨c, wc.text, wc.pos⟩]) := by
  rw [between, flat_cons, flat_append]
  rfl

theorem openParens_between {o c : TokenKind} (wo wc : Word) (ho : o.isMark) (hc : c.isMark)
    (ps : List Chunk) (hps : ∀ n, openParens (flat ps) n = some n)
    (h : o = .openParen ∧ c = .closeParen ∨ (o ≠ .openParen ∧ o ≠ .closeParen) ∧
      (c ≠ .openParen ∧ c ≠ .closeParen)) :
    openParens (flat (between wo wc ps ho hc)) n = some n := by
  rcases h with ⟨rfl, rfl⟩ | ⟨ho', hc'⟩
  · show openParens (flat (ps ++ _)) (n + 1) = _
    rw [openParens_flat_append, hps]
    rfl
  · rw [between, openParens_mark n wo ho _ ho'.1 ho'.2, openParens_flat_append, hps]
    exact openParens_mark n wc hc [] hc'.1 hc'.2

end

/-- In what is accepted, parentheses are balanced. -/
theorem Spelled.balanced {x : Phrase} {ps : List Chunk} (h : Spelled x ps) (n : Nat) :
    openParens (flat ps) n = some n := by
  induction h generalizing n with
  | parens _ ih | array _ ih | object _ ih | args _ ih | output _ ih =>
    exact openParens_between n _ _ _ _ _ ih (by decide)
  | tuple _ ih | positional _ ih | lastItem _ ih => exact ih n
  | index _ _ _ ih ihkey ihmore =>
    rw [openParens_flat_append, ih, Option.bind_some]
    refine openParens_between n _ _ _ _ _ (fun n => ?_) (by decide)
    rw [openParens_flat_append, ihkey, Option.bind_some, flat_dropped]
    exact ihmore n
  | slice _ _ _ ih ihparts =>
    rw [openParens_flat_append, ih, Option.bind_some]
    exact openParens_between n _ _ _ _ _ ihparts (by decide)
  | _ =>
    simp only [openParens_flat_append, openParens_leaf, openParens_strings, openParens_notIn,
      openParens_keyword, openParens_mark, openParens_opening, openParens_ending, openParens_close,
      openParens_nil, *, Option.bind_some, ne_eq, reduceCtorEq, not_false_eq_true]

/-! ### Calls of a name -/

/-- Does the token go on with the call in front of it? -/
def TokenKind.isPostfix : TokenKind → Bool
  | .dot | .openSquare | .openParen => true
  | _ => false

/-- The tokens are a name, arguments in parentheses, and `us`. -/
def CallsName (us ts : List Token) : Prop :=
  ∃ w o args c, ts = w :: o :: (args ++ c :: us) ∧ w.kind = .name ∧ o.kind = .openParen ∧
    openParens args 0 = some 0 ∧ c.kind = .closeParen

theorem CallsName.append {us ts : List Token} (h : CallsName us ts) (vs : List Token) :
    CallsName (us ++ vs) (ts ++ vs) := by
  obtain ⟨w, o, args, c, rfl, hkinds⟩ := h
  exact ⟨w, o, args, c, by simp, hkinds⟩

/-- The tokens are a name, arguments in parentheses, and what goes on with the call. -/
def GoesOn (ts : List Token) : Prop := ∃ d us, d.kind.isPostfix ∧ CallsName (d :: us) ts

theorem GoesOn.append {ts : List Token} (h : GoesOn ts) (vs : List Token) : GoesOn (ts ++ vs) := by
  obtain ⟨d, us, hd, hcall⟩ := h
  exact ⟨d, us ++ vs, hd, hcall.append vs⟩

/-- What a filter is written as. -/
inductive FilterTokens : Expr → List Token → Prop
  | name (w : Word) : FilterTokens (.name w) [⟨.name, w.text, w.pos⟩]
  | call {w : Word} {as : List Arg} {ts : List Token} (h : CallsName [] ts) :
    FilterTokens (.call (.name w) as) ts
  | goesOn {f : Expr} {ts : List Token} (h : GoesOn ts) : FilterTokens f ts

/-- What stands behind a call goes on with it. -/
theorem FilterTokens.continued {f g : Expr} {ts : List Token} (h : FilterTokens f ts)
    (hf : f.invoked) {d : Token} {us : List Token} (hd : d.kind.isPostfix) :
    FilterTokens g (ts ++ d :: us) := by
  cases h with
  | name w => cases hf
  | call h => exact .goesOn ⟨d, us, hd, h.append (d :: us)⟩
  | goesOn h => exact .goesOn (h.append _)

theorem Expr.filterForm_of_invoked (f : Expr) (h : f.invoked) : f.filterForm := by
  rw [filterForm, h, Bool.or_true]

/-- A filter that does not begin with a parenthesis is a name, the call of a name, or such a call
that goes on. -/
theorem Spelled.filter_tokens {f : Expr} {ps : List Chunk} (h : Spelled (.expr f) ps)
    (hform : f.filterForm) (hhead : ∀ t, [t] <+: flat ps → t.kind ≠ .openParen) :
    FilterTokens f (flat ps) := by
  generalize hx : Phrase.expr f = x at h
  have hfront {ps qs : List Chunk} (h : ∀ t, [t] <+: flat (ps ++ qs) → t.kind ≠ .openParen)
      (t : Token) (ht : [t] <+: flat ps) : t.kind ≠ .openParen :=
    h t (ht.trans (by rw [flat_append]; exact List.prefix_append ..))
  induction h generalizing f with
  | name w =>
    cases hx
    exact .name w
  | parens => exact absurd rfl (hhead _ (List.prefix_append [_] _))
  | @member e w ps d he ih =>
    cases hx
    have hform : e.invoked := hform
    rw [flat_append]
    exact (ih (e.filterForm_of_invoked hform) (hfront hhead) rfl).continued hform rfl
  | @index e key more ps qs rs o c he hkey hmore ih =>
    cases hx
    have hform : e.invoked := hform
    rw [flat_append]
    exact (ih (e.filterForm_of_invoked hform) (hfront hhead) rfl).continued hform rfl
  | @slice e parts ps qs o c he hparts hlength ih =>
    cases hx
    have hform : e.invoked := hform
    rw [flat_append]
    exact (ih (e.filterForm_of_invoked hform) (hfront hhead) rfl).continued hform rfl
  | @call f as ps qs hf has ih =>
    cases hx
    cases has with
    | @args _ qs o c hargs =>
      have hcallee : f.filterForm := hform
      have hshape := ih hcallee (hfront hhead) rfl
      rw [flat_append]
      cases f with
      | name w =>
        generalize flat ps = ts at hshape
        cases hshape with
        | name w =>
          rw [flat_between]
          exact .call ⟨_, _, flat qs, _, rfl, rfl, rfl, hargs.balanced 0, rfl⟩
        | goesOn h => exact .goesOn (h.append _)
      | _ => exact hshape.continued hcallee rfl
  | bool | null | int | float | string | tuple | array | object | binary | notIn | unary | filter
  | test | testNot | select | ternary =>
    cases hx
    cases hform
  | _ => cases hx

/-! ### Filters that are names -/

/-- Tokens that make a filter something else than a name or the call of a name. -/
inductive StrayFilter : List Token → Prop
  /-- The call of a filter behind `|` goes on. -/
  | piped {m d : Token} {ts : List Token} (hm : m.kind = .pipe) (hcall : CallsName [d] ts)
      (hd : d.kind.isPostfix) : StrayFilter (m :: ts)
  /-- That of the filter of a block does. -/
  | block {o w d : Token} {ts : List Token} (ho : o.kind = .openStatement) (hw : isName "filter" w)
      (hcall : CallsName [d] ts) (hd : d.kind.isPostfix) : StrayFilter (o :: w :: ts)
  /-- No name stands where the filter of a block should. -/
  | nameless {o w t : Token} (ho : o.kind = .openStatement) (hw : isName "filter" w)
      (ht : ¬ t.isPlainName) : StrayFilter [o, w, t]

/-- All filters are written as names or calls of names. -/
def PlainFilters (ts : List Token) : Prop := ∀ us, us <:+: ts → ¬ StrayFilter us

theorem hereditary_plainFilters : Hereditary fun ps => PlainFilters (flat ps) where
  left h us hus := h us (hus.trans (by rw [flat_append]; exact (List.prefix_append ..).isInfix))
  right h us hus := h us (hus.trans (by rw [flat_append]; exact (List.suffix_append ..).isInfix))

/-- It is enough that there are no blocks to filter, and that no call at all goes on. -/
theorem PlainFilters.of_isChain {ts : List Token}
    (hts : ts.IsChain fun c d => c.kind = .closeParen → ¬ d.kind.isPostfix)
    (hnames : ∀ t ∈ ts, ¬ isName "filter" t) : PlainFilters ts := by
  intro us hus hstray
  have hcall {d : Token} {vs : List Token} (hcall : CallsName [d] vs) (hd : d.kind.isPostfix) :
      ¬ vs <:+: ts := by
    obtain ⟨w, o, args, c, rfl, -, -, -, hc⟩ := hcall
    intro hvs
    have hpair : [c, d] <:+: ts := .trans ⟨w :: o :: args, [], by simp⟩ hvs
    have hcd := List.IsChain.infix hts hpair
    exact List.isChain_pair.mp hcd hc hd
  cases hstray with
  | piped hm h hd => exact hcall h hd ((List.suffix_cons ..).isInfix.trans hus)
  | block ho hw h hd => exact hnames _ (hus.subset (by simp)) hw
  | nameless ho hw ht => exact hnames _ (hus.subset (by simp)) hw

/-- The call that goes on does so at the front. -/
theorem GoesOn.exists_front {ts : List Token} (h : GoesOn ts) :
    ∃ d us, us <+: ts ∧ CallsName [d] us ∧ d.kind.isPostfix := by
  obtain ⟨d, us, hd, w, o, args, c, rfl, hkinds⟩ := h
  refine ⟨d, w :: o :: (args ++ [c, d]), ⟨us, by simp⟩, ⟨w, o, args, c, by simp, hkinds⟩, hd⟩

theorem FilterTokens.namesFilter {f : Expr} {ts : List Token} (h : FilterTokens f ts)
    (hts : ¬ GoesOn ts) : f.namesFilter := by
  cases h with
  | name w => rfl
  | call h => rfl
  | goesOn h => exact absurd h hts

/-- A filter behind `|` whose call does not go on is a name or the call of a name. -/
theorem Spelled.piped_namesFilter {e f : Expr} {ps : List Chunk}
    (h : Spelled (.expr (.filter e f)) ps) (hplain : PlainFilters (flat ps)) : f.namesFilter := by
  generalize hx : Phrase.expr (.filter e f) = x at h
  induction h with
  | parens he ih => exact ih (hereditary_plainFilters.between hplain) hx
  | @filter e f w ps qs m he hf hform =>
    cases hx
    replace hplain := hereditary_plainFilters.right hplain
    refine (hf.filter_tokens hform ?_).namesFilter fun hgoes => ?_
    · rintro t ⟨us, hus⟩
      cases hus
      exact nofun
    · obtain ⟨d, us, hfirst, hcall, hd⟩ := hgoes.exists_front
      have hpiped : ⟨.pipe, m.text, m.pos⟩ :: us <+: flat (.mark .pipe m :: .leaf .name w :: qs) :=
        List.cons_prefix_cons.mpr ⟨rfl, hfirst⟩
      exact hplain _ hpiped.isInfix (.piped rfl hcall hd)
  | _ => cases hx

/-- So is the filter of a block that begins with a name. -/
theorem Spelled.block_namesFilter {f : Expr} {body : List Stmt} {ps : List Chunk}
    (h : Spelled (.stmt (.filterBlock f body)) ps) (hplain : PlainFilters (flat ps)) :
    f.namesFilter := by
  cases h with
  | ofChoice h => cases h
  | @filterBlock _ _ ps qs o pos c o' c' pos' hf hform hbody =>
    set rest : List Chunk := close c :: (qs ++ ending o' c' "endfilter" pos')
    have hflat : flat (opening o "filter" pos ++ (ps ++ rest)) =
        ⟨.openStatement, o.text, o.pos⟩ :: ⟨.name, "filter", pos⟩ :: (flat ps ++ flat rest) := by
      rw [flat_append, flat_append]
      rfl
    rw [hflat] at hplain
    have hstray {us : List Token} (hus : us <+: flat ps ++ flat rest) :
        ¬ StrayFilter (⟨.openStatement, o.text, o.pos⟩ :: ⟨.name, "filter", pos⟩ :: us) :=
      hplain _ (List.cons_prefix_cons.mpr ⟨rfl, List.cons_prefix_cons.mpr ⟨rfl, hus⟩⟩).isInfix
    have hhead : ∀ t, [t] <+: flat ps ++ flat rest → t.isPlainName := by
      intro t ht
      by_contra hname
      exact hstray ht (.nameless rfl rfl hname)
    have hbegin : beginWithName ps := by
      rw [beginWithName]
      cases hps : flat ps with
      | nil =>
        -- Then the mark that closes the statement stands in the place of the name.
        rw [hps] at hhead
        cases hhead ⟨.closeStatement, c.text, c.pos⟩ (List.prefix_append [_] _)
      | cons t ts =>
        rw [hps] at hhead
        exact hhead t (List.prefix_append [t] _)
    refine (hf.filter_tokens (hform hbegin) ?_).namesFilter fun hgoes => ?_
    · intro t ht hkind
      have hname := hhead t (ht.trans (List.prefix_append ..))
      simp [Token.isPlainName, hkind] at hname
    · obtain ⟨d, us, hfirst, hcall, hd⟩ := hgoes.exists_front
      exact hstray (hfirst.trans (List.prefix_append ..)) (.block rfl rfl hcall hd)

/-- The filters in an accepted text are what the rule allows, if they are written as names and
calls of names where the rule asks for that. -/
theorem Spelled.filtersBy {rule : FilterRule} {x : Phrase} {ps : List Chunk} (h : Spelled x ps)
    (hplain : rule = .documented → PlainFilters (flat ps)) :
    x.Holds (Expr.filtersBy rule) (fun _ => Stmt.filtersBy rule) := by
  refine h.holds (C := fun ps => rule = .documented → PlainFilters (flat ps)) ?hereditary ?expr
    ?stmt (fun _ _ _ _ => trivial) hplain
  case hereditary =>
    exact ⟨fun h hr => hereditary_plainFilters.left (h hr),
      fun h hr => hereditary_plainFilters.right (h hr)⟩
  case expr =>
    intro e ps h hps
    cases e with
    | filter e f => exact ⟨h.filter_form, fun hr => h.piped_namesFilter (hps hr)⟩
    | _ => exact trivial
  case stmt =>
    intro _ s ps h hps
    cases s with
    | filterBlock f body => exact fun hr => h.block_namesFilter (hps hr)
    | _ => exact trivial

end ChatTemplate
