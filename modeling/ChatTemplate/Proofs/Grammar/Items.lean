import ChatTemplate.Proofs.Grammar.Reads
import Mathlib.Data.List.Forall2

/-!
# Lists between marks

What stands between brackets, read back: the items of a sequence, an array or an object
(`items_separated`), arguments (`argumentList_printList`) and the parts of a subscript. They ask no
more of the reader of an item than that it takes each of the printed items in front of a comma and
of the closing mark.
-/

namespace ChatTemplate.Grammar
open Reader

variable {α : Type} {item : Reader α} {n m i : Nat} {ts rest : List Token} {as : List α}
  {tss : List (List Token)} {ends : List Token → Prop} {close : TokenKind} {s : Style}
  {expr : Reader Expr}

theorem separated_cons (ts : List Token) (tss : List (List Token)) :
    separated (ts :: tss) = ts ++ tss.flatMap (mark .comma :: ·) := by
  induction tss generalizing ts with
  | nil => simp [separated]
  | cons us tss ih => rw [separated, ih, List.flatMap_cons]; rfl

/-! ### Sequences, arrays and objects -/

theorem moreItems_flatMap (h : List.Forall₂ (Reads item n ends) tss as)
    (hcomma : ∀ us, (next us).kind = .comma → ends us) (hrest : ends rest)
    (hne : (next rest).kind ≠ .comma)
    (hlength : (tss.flatMap (mark .comma :: ·) ++ rest).length ≤ m) (hm : m ≤ n) :
    moreItems item m (tss.flatMap (mark .comma :: ·) ++ rest) = .ok (as, rest) := by
  induction h generalizing m with
  | nil =>
    cases m with
    | zero => rfl
    | succ m => rw [moreItems, List.flatMap_nil, List.nil_append, bind_eq (accept_of_ne hne)]; rfl
  | @cons ts a tss as hts htss ih =>
    rw [List.flatMap_cons, List.append_assoc, List.cons_append] at hlength ⊢
    cases m with
    | zero => simp at hlength
    | succ m =>
      rw [List.length_cons, List.length_append] at hlength
      have hends : ends (tss.flatMap (mark .comma :: ·) ++ rest) := by
        cases tss with
        | nil => exact hrest
        | cons us tss => exact hcomma _ rfl
      rw [moreItems, bind_eq accept_mark]
      show (item >>= _) (ts ++ _) = _
      rw [bind_eq (hts _ hends (by rw [List.length_append]; omega)),
        bind_eq (ih (by omega) (by omega))]
      rfl

theorem sequence_separated {item : Reader Expr} {es : List Expr}
    (h : List.Forall₂ (Reads item n ends) tss es) (htwo : 2 ≤ es.length)
    (hcomma : ∀ us, (next us).kind = .comma → ends us) (hrest : ends rest)
    (hne : (next rest).kind ≠ .comma) (hlength : (separated tss ++ rest).length ≤ n) :
    sequence n item (separated tss ++ rest) = .ok (.tuple es, rest) := by
  cases h with
  | nil => simp at htwo
  | @cons ts e tss es hfirst hmore =>
    have hcomma' : (next (tss.flatMap (mark .comma :: ·) ++ rest)).kind = .comma := by
      cases hmore with
      | nil => simp at htwo
      | cons => rfl
    rw [separated_cons, List.append_assoc] at hlength ⊢
    have hlater := hlength
    rw [List.length_append] at hlater
    rw [sequence, bind_eq (hfirst _ (hcomma _ hcomma') hlength), check_bind, hcomma',
      beq_self_eq_true, if_pos rfl,
      bind_eq (moreItems_flatMap hmore hcomma hrest hne (by omega) (Nat.le_refl n))]
    rfl

theorem items_separated
    (h : List.Forall₂ (fun ts a => Reads item n ends ts a ∧ Begins False ts) tss as)
    (hends : ∀ us, (next us).kind = .comma ∨ (next us).kind = close → ends us)
    (hclose : close ∉ TokenKind.comma :: openers) {t : Token} (ht : t.kind = close)
    (hlength : (separated tss ++ t :: rest).length ≤ m) (hm : m ≤ n) :
    items close item m (separated tss ++ t :: rest) = .ok (as, t :: rest) := by
  rw [List.mem_cons, not_or] at hclose
  induction h generalizing m with
  | nil =>
    cases m with
    | zero => simp [separated] at hlength
    | succ m =>
      rw [items, separated, List.nil_append, check_bind, next_cons, ht, beq_self_eq_true]
      rfl
  | @cons ts a tss as hts htss ih =>
    obtain ⟨hreads, hbegins⟩ := hts
    have hopen : ∀ us, ((next (ts ++ us)).kind == close) = false := by
      intro us
      obtain ⟨t, ts, rfl, hkind, -⟩ := hbegins
      rw [List.cons_append, next_cons, beq_eq_false_iff_ne]
      exact fun heq => hclose.2 (heq ▸ hkind)
    have hne := hbegins.ne_nil
    cases m with
    | zero => simp at hlength
    | succ m =>
      cases tss with
      | nil =>
        cases htss
        rw [separated] at hlength ⊢
        rw [items, check_bind, hopen, if_neg (by simp),
          bind_eq (hreads (t :: rest) (hends _ (.inr ht)) (by omega)),
          bind_eq (accept_of_ne (by rw [next_cons, ht]; exact hclose.1))]
        rfl
      | cons us tss =>
        rw [separated, List.append_assoc, List.cons_append] at hlength ⊢
        have hlength' := hlength
        rw [List.length_append, List.length_cons] at hlength
        have hpos := List.length_pos_iff.mpr hne
        rw [items, check_bind, hopen, if_neg (by simp),
          bind_eq (hreads _ (hends _ (.inl rfl)) (by omega)), bind_eq accept_mark,
          if_pos rfl]
        show (items close item m >>= _) (separated (us :: tss) ++ t :: rest) = _
        rw [bind_eq (ih (by omega) (by omega))]
        rfl

theorem bodies_reads (h : ReadsAll expr n .condition) (s : Style) :
    (i : Nat) → (es : List Expr) → Expr.allWellFormed es →
      List.Forall₂ (fun ts e => Reads expr n (Stops .condition) ts e ∧ Begins False ts)
        (Expr.bodies s i es) es
  | _, [], _ => .nil
  | i, e :: es, hes => by
    simp only [Expr.allWellFormed, Bool.and_eq_true] at hes
    exact .cons ⟨h.print (s.child i) hes.1, (print_begins _ _ hes.1).mono False.elim⟩
      (bodies_reads h s (i + 1) es hes.2)

theorem entryBody_eq (s : Style) (k v : Expr) : Expr.entryBody s (k, v) =
    k.print (s.child 0) .condition ++ mark .colon :: v.print (s.child 1) .condition :=
  rfl

theorem entryBody_reads (h : ReadsAll expr n .condition) (s : Style) {k v : Expr}
    (hk : k.wellFormed) (hv : v.wellFormed) :
    Reads (objectEntry expr) n (Stops .condition) (Expr.entryBody s (k, v)) (k, v) := by
  intro rest hrest hlength
  rw [entryBody_eq, List.append_assoc, List.cons_append] at hlength ⊢
  have hvalue := hlength
  rw [List.length_append, List.length_cons] at hvalue
  rw [objectEntry, bind_eq (h.print _ hk _ (stops_mark (by decide) _ _) hlength),
    bind_eq expect_mark, bind_eq (h.print _ hv _ hrest (by omega))]
  rfl

theorem entryBodies_reads (h : ReadsAll expr n .condition) (s : Style) :
    (i : Nat) → (entries : List (Expr × Expr)) → Expr.entriesWellFormed entries →
      List.Forall₂ (fun ts p => Reads (objectEntry expr) n (Stops .condition) ts p ∧
        Begins False ts) (Expr.entryBodies s i entries) entries
  | _, [], _ => .nil
  | i, (k, v) :: ps, hps => by
    simp only [Expr.entriesWellFormed, Expr.entryWellFormed, Bool.and_eq_true] at hps
    obtain ⟨⟨hk, hv⟩, hps⟩ := hps
    refine .cons ⟨entryBody_reads h (s.child i) hk hv, ?_⟩ (entryBodies_reads h s (i + 1) ps hps)
    exact ((print_begins ((s.child i).child 0) .condition hk).append _).mono False.elim

theorem stops_of_comma_or_close (hclose : close ∈ closers) (ts : List Token)
    (h : (next ts).kind = .comma ∨ (next ts).kind = close) : Stops .condition ts :=
  h.elim stops_of_comma fun h => stops_of_mem_closers (h ▸ hclose) _

/-- An expression, or the items of a tuple with commas between them. -/
theorem sequence_reads (h : ReadsAll expr n .condition) : ReadsAll (sequence n expr) n .sequence := by
  intro s k e he _ rest hrest hlength
  have hne : (next rest).kind ≠ .comma := by
    simpa [Level.extends] using hrest .sequence (Nat.le_refl _)
  by_cases hp : Level.condition ≤ e.level ∨ 0 < k
  · rw [sequence, bind_eq (h s k e he hp rest (hrest.mono (by decide)) hlength), check_bind,
      beq_false_of_ne hne]
    rfl
  · rw [not_or, Nat.not_lt, Nat.le_zero] at hp
    obtain ⟨hlevel, rfl⟩ := hp
    obtain ⟨es, rfl⟩ := exists_tuple_of_level hlevel
    simp only [Expr.wellFormed, Bool.and_eq_true, decide_eq_true_eq] at he
    obtain ⟨htwo, hes⟩ := he
    refine sequence_separated ((bodies_reads h s 0 es hes).imp fun _ _ h => h.1) htwo ?_ ?_ hne
      hlength
    · exact fun us => stops_of_comma
    · exact hrest.mono (by decide)

/-! ### Arguments -/

/-- Has an argument been given by name, after `a`? -/
def givenByName (named : Bool) : Arg → Bool
  | .keyword .. => true
  | _ => named

/-- Is `a` allowed where `named` tells that one was given by name? -/
def mayFollow (named : Bool) : Arg → Bool
  | .positional _ => !named
  | _ => true

theorem ordered_cons (named : Bool) (a : Arg) (args : List Arg) :
    ordered named (a :: args) = (mayFollow named a && ordered (givenByName named a) args) := by
  cases a <;> rfl

theorem argument_body (h : ReadsAll expr n .condition) {named : Bool} {a : Arg}
    (ha : a.wellFormed) (hmay : mayFollow named a) (hstops : Stops .condition rest)
    (hequals : (next rest).kind ≠ .equals) (hlength : (a.body s ++ rest).length ≤ n) :
    argument expr named (a.body s ++ rest) = .ok ((a, givenByName named a), rest) := by
  cases a with
  | positional e =>
    have hvalue := h.print s ha rest hstops hlength
    obtain ⟨t, us, hbody, hkind, -⟩ := (print_begins s .condition ha).append rest
    have hstar : (t.kind == .multiplicative) = false := by
      rw [beq_eq_false_iff_ne]
      rintro heq
      exact absurd (heq ▸ hkind) (by decide)
    have hnamed : named = false := by simpa [mayFollow] using hmay
    show argument expr named (e.print s .condition ++ rest) = _
    rw [argument, peek_bind, hbody, next_cons, hstar, Bool.false_and, if_neg (by simp), ← hbody,
      bind_eq hvalue, bind_eq (accept_of_ne hequals), if_neg (by simp), hnamed]
    rfl
  | keyword w e =>
    simp only [Arg.wellFormed, Bool.and_eq_true] at ha
    change (leaf .name w :: mark .equals :: (e.print s .condition ++ rest)).length ≤ n at hlength
    show argument expr named (leaf .name w :: mark .equals :: (e.print s .condition ++ rest)) = _
    have hname : expr (leaf .name w :: mark .equals :: (e.print s .condition ++ rest)) =
        .ok (.name w, mark .equals :: (e.print s .condition ++ rest)) :=
      h s 0 (.name w) ha.1 (.inl (by decide : Level.condition ≤ Level.primary)) _
        (stops_mark (by decide) _ _) hlength
    have hvalue := h.print s ha.2 rest hstops
      (Nat.le_trans (Nat.le_add_right _ 2) hlength)
    rw [argument, peek_bind, next_cons, if_neg (by simp [leaf]), bind_eq hname,
      bind_eq accept_mark, if_pos rfl]
    show (expr >>= _) _ = _
    rw [bind_eq hvalue]
    rfl
  | spread e =>
    change (star :: (e.print s .condition ++ rest)).length ≤ n at hlength
    have hvalue := h.print s ha rest hstops (Nat.le_trans (Nat.le_add_right _ 1) hlength)
    show argument expr named (star :: (e.print s .condition ++ rest)) = _
    rw [argument, peek_bind, next_cons, if_pos (by decide), advance_bind, List.tail_cons,
      bind_eq hvalue]
    rfl

theorem argBody_begins (s : Style) {a : Arg} (ha : a.wellFormed) :
    ∃ t us, a.body s = t :: us ∧ t.kind ≠ .closeParen := by
  cases a with
  | positional e =>
    obtain ⟨t, us, hbody, hkind, -⟩ := print_begins s .condition ha
    refine ⟨t, us, hbody, ?_⟩
    rintro heq
    exact absurd (heq ▸ hkind) (by decide)
  | keyword w e => exact ⟨_, _, rfl, by simp [leaf]⟩
  | spread e => exact ⟨_, _, rfl, by decide⟩

theorem arguments_separated (h : ReadsAll expr n .condition) {named : Bool} {args : List Arg}
    (hargs : Arg.allWellFormed args) (hordered : ordered named args)
    (hlength : (separated (Arg.bodies s i args) ++ mark .closeParen :: rest).length ≤ m)
    (hm : m ≤ n) :
    arguments expr named m (separated (Arg.bodies s i args) ++ mark .closeParen :: rest) =
      .ok (args, mark .closeParen :: rest) := by
  induction args generalizing i m named with
  | nil =>
    cases m with
    | zero => simp [Arg.bodies, separated] at hlength
    | succ m => rfl
  | cons a args ih =>
    simp only [Arg.allWellFormed, Bool.and_eq_true] at hargs
    obtain ⟨ha, hargs⟩ := hargs
    rw [ordered_cons, Bool.and_eq_true] at hordered
    obtain ⟨hmay, hordered⟩ := hordered
    obtain ⟨t, us, hbody, hkind⟩ := argBody_begins (s.child i) ha
    have hopen : ∀ ts, ((next (a.body (s.child i) ++ ts)).kind == .closeParen) = false := by
      intro ts
      rw [hbody, List.cons_append, next_cons, beq_eq_false_iff_ne]
      exact hkind
    cases m with
    | zero => simp at hlength
    | succ m =>
      cases args with
      | nil =>
        have harg := argument_body h ha hmay (stops_mark (by decide) _ rest) (by simp)
          (Nat.le_trans hlength hm)
        show arguments expr named (m + 1) (a.body (s.child i) ++ mark .closeParen :: rest) = _
        rw [arguments, check_bind, hopen, if_neg (by simp), bind_eq harg]
        rfl
      | cons a' args =>
        have hbodies : separated (Arg.bodies s i (a :: a' :: args)) =
          a.body (s.child i) ++ mark .comma :: separated (Arg.bodies s (i + 1) (a' :: args)) := rfl
        rw [hbodies, List.append_assoc, List.cons_append] at hlength ⊢
        have hlater := hlength
        rw [List.length_append, List.length_cons] at hlater
        have harg := argument_body h ha hmay (stops_of_comma rfl) (by simp)
          (Nat.le_trans hlength hm)
        rw [arguments, check_bind, hopen, if_neg (by simp), bind_eq harg]
        show (accept .comma >>= _) _ = _
        rw [bind_eq accept_mark, if_pos rfl,
          bind_eq (ih hargs hordered (by omega) (by omega))]
        rfl

/-- Arguments in their parentheses are read back. -/
theorem argumentList_printList (h : ReadsAll expr n .condition) {args : List Arg}
    (hargs : Arg.allWellFormed args) (hordered : ordered false args)
    (hlength : (Arg.printList s i args ++ rest).length ≤ m + 1) (hm : m ≤ n) :
    argumentList m expr (Arg.printList s i args ++ rest) = .ok (args, rest) := by
  have hlist : Arg.printList s i args ++ rest =
      mark .openParen :: (separated (Arg.bodies s i args) ++ mark .closeParen :: rest) := by
    simp [Arg.printList]
  rw [hlist, List.length_cons] at hlength
  rw [argumentList, hlist, bind_eq expect_mark,
    bind_eq (arguments_separated h hargs hordered (by omega) hm), bind_eq expect_mark]
  rfl

/-! ### Subscripts -/

theorem subscriptParts_close : subscriptParts expr m (mark .closeSquare :: rest) =
    .ok (([], false), mark .closeSquare :: rest) := by
  cases m <;> rfl

/-- A part that begins an expression is neither missing nor the end of the subscript. -/
theorem subscriptParts_value {e : Expr} {us : List Token} (hts : Begins False ts)
    (hvalue : expr ts = .ok (e, us)) :
    subscriptParts expr (m + 1) ts = (do
      let colon ← accept .colon
      let (parts, colons) ← subscriptParts expr m
      return (some e :: parts, colon || colons)) us := by
  obtain ⟨t, ts, rfl, hkind, -⟩ := hts
  have hclose : (next (t :: ts)).kind ≠ .closeSquare := by
    rintro heq
    exact absurd (heq ▸ hkind) (by decide)
  have hcolon : (next (t :: ts)).kind ≠ .colon := by
    rintro heq
    exact absurd (heq ▸ hkind) (by decide)
  rw [subscriptParts, check_bind, beq_false_of_ne hclose, if_neg (by simp),
    bind_eq (accept_of_ne hcolon), if_neg (by simp), bind_eq hvalue]

theorem subscriptParts_colon (h : ReadsAll expr n .condition) {a : Option Expr}
    (ha : Expr.optionWellFormed a) {us : List Token} {parts : List (Option Expr)} {colons : Bool}
    (hparts : subscriptParts expr m ts = .ok ((parts, colons), us))
    (hlength : (Expr.optionBody s [] a ++ mark .colon :: ts).length ≤ n) :
    subscriptParts expr (m + 1) (Expr.optionBody s [] a ++ mark .colon :: ts) =
      .ok ((a :: parts, true), us) := by
  cases a with
  | none =>
    show subscriptParts expr (m + 1) (mark .colon :: ts) = _
    rw [subscriptParts, check_bind, next_cons, if_neg (by decide), bind_eq accept_mark, if_pos rfl,
      bind_eq hparts]
    rfl
  | some e =>
    have hvalue := h.print s ha _ (stops_mark (by decide) _ ts) hlength
    show subscriptParts expr (m + 1) (e.print s .condition ++ mark .colon :: ts) = _
    rw [subscriptParts_value (((print_begins s .condition ha).append _).mono False.elim) hvalue,
      bind_eq accept_mark, bind_eq hparts]
    rfl

theorem subscriptParts_last (h : ReadsAll expr n .condition) {a : Option Expr}
    (ha : Expr.optionWellFormed a)
    (hlength : (Expr.optionBody s [] a ++ mark .closeSquare :: rest).length ≤ n) :
    subscriptParts expr (m + 1) (Expr.optionBody s [] a ++ mark .closeSquare :: rest) =
      .ok ((a.toList.map some, false), mark .closeSquare :: rest) := by
  cases a with
  | none => exact subscriptParts_close
  | some e =>
    have hvalue := h.print s ha _ (stops_mark (by decide) _ rest) hlength
    show subscriptParts expr (m + 1) (e.print s .condition ++ mark .closeSquare :: rest) = _
    rw [subscriptParts_value (((print_begins s .condition ha).append _).mono False.elim) hvalue,
      bind_eq (accept_of_ne (by simp)), bind_eq subscriptParts_close]
    rfl

theorem subscript_index (h : ReadsAll expr n .condition) (object : Expr) {key : Expr}
    (hkey : key.wellFormed)
    (hlength : (key.print s .condition ++ mark .closeSquare :: rest).length ≤ m) (hm : m ≤ n) :
    subscript m expr object (key.print s .condition ++ mark .closeSquare :: rest) =
      .ok (.index object key, mark .closeSquare :: rest) := by
  cases m with
  | zero => simp at hlength
  | succ m =>
    rw [subscript, peek_bind]
    show (subscriptParts expr (m + 1) >>= _)
      (Expr.optionBody s [] (some key) ++ mark .closeSquare :: rest) = _
    have hoption : Expr.optionWellFormed (some key) := hkey
    rw [bind_eq (subscriptParts_last h hoption (Nat.le_trans hlength hm))]
    rfl

theorem subscript_slice (h : ReadsAll expr n .condition) (object : Expr) {a b c : Option Expr}
    (ha : Expr.optionWellFormed a) (hb : Expr.optionWellFormed b) (hc : Expr.optionWellFormed c)
    {s₁ s₂ s₃ : Style}
    (hlength : (Expr.optionBody s₁ [] a ++ mark .colon :: (Expr.optionBody s₂ [] b ++
      (Expr.optionBody s₃ [mark .colon] c ++ mark .closeSquare :: rest))).length ≤ m) (hm : m ≤ n) :
    subscript m expr object (Expr.optionBody s₁ [] a ++ mark .colon :: (Expr.optionBody s₂ [] b ++
      (Expr.optionBody s₃ [mark .colon] c ++ mark .closeSquare :: rest))) =
      .ok (.slice object a b c, mark .closeSquare :: rest) := by
  have hlater := hlength
  simp only [List.length_append, List.length_cons] at hlater
  obtain ⟨m, rfl⟩ : ∃ k, m = k + 1 + 1 := ⟨m - 2, by omega⟩
  rw [subscript, peek_bind]
  cases c with
  | none =>
    have hstop : subscriptParts expr (m + 1)
        (Expr.optionBody s₂ [] b ++ mark .closeSquare :: rest) = _ :=
      subscriptParts_last h hb (by simp only [List.length_append, List.length_cons]; omega)
    refine (bind_eq (subscriptParts_colon h ha hstop (Nat.le_trans hlength hm))).trans ?_
    cases b <;> rfl
  | some e =>
    have hlast : (Expr.optionBody s₃ [mark .colon] (some e)).length =
      (e.print s₃ .condition).length + 1 := rfl
    rw [hlast] at hlater
    obtain ⟨m, rfl⟩ : ∃ k, m = k + 1 := ⟨m - 1, by omega⟩
    have hstep : subscriptParts expr (m + 1)
        (Expr.optionBody s₃ [] (some e) ++ mark .closeSquare :: rest) =
        .ok (([some e], false), mark .closeSquare :: rest) := by
      refine subscriptParts_last h hc ?_
      show (e.print s₃ .condition ++ mark .closeSquare :: rest).length ≤ _
      rw [List.length_append, List.length_cons]
      omega
    have hstop := subscriptParts_colon h hb hstep (s := s₂) (by
      show (Expr.optionBody s₂ [] b ++ mark .colon :: (e.print s₃ .condition ++ _)).length ≤ _
      simp only [List.length_append, List.length_cons]
      omega)
    refine (bind_eq (subscriptParts_colon h ha hstop (Nat.le_trans hlength hm))).trans ?_
    rfl

end ChatTemplate.Grammar
