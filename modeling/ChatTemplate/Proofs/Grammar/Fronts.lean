import ChatTemplate.Proofs.Grammar.Takes
import ChatTemplate.Proofs.Lexeme.Append

/-!
# What a reader takes before it fails

`Guarded F places r`: whatever tokens the reader `r` is given, those that it takes make up a front
of the class `F`, and where it fails it complains of the token that comes next behind a front
without an end mark, or of a place it was told of (`places`), such as that of a token which was next
when a rule was started. There is one lemma for each step a rule of the grammar is made of.

No class of fronts holds an end mark (`Fronts.ne_eof`). The two that matter are `inner`, what an
expression is made of, and `closed`, what statements are made of: behind them, and behind each
construct in them, no curly bracket is open.
-/

namespace ChatTemplate.Grammar
open Reader

variable {α β : Type}

/-- A class of token lists: tokens of some kinds are in it, and what is joined from its members. -/
structure Fronts where
  kinds : TokenKind → Bool
  mem : List Token → Prop
  nil : mem []
  single {t : Token} : kinds t.kind → mem [t]
  append {ts us : List Token} : mem ts → mem us → mem (ts ++ us)
  ne_eof {ts : List Token} : mem ts → ∀ t ∈ ts, t.kind ≠ .eof

/-- All lists without an end mark. -/
def plain : Fronts where
  kinds kind := kind != .eof
  mem ts := ∀ t ∈ ts, t.kind ≠ .eof
  nil := by simp
  single h := by simpa using h
  append h h' := List.forall_mem_append.mpr ⟨h, h'⟩
  ne_eof := id

variable {F G : Fronts} {r : Reader α} {t : Token} {ts us rest : List Token} {places : Pos → Prop}
  {kind : TokenKind}

theorem Fronts.not_eof (F : Fronts) : F.kinds .eof = false := by
  rw [Bool.eq_false_iff]
  intro h
  have hmem : F.mem [⟨.eof, "", ⟨0, 0⟩⟩] := F.single h
  exact F.ne_eof hmem _ List.mem_cons_self rfl

/-- What is left behind a front of the class. -/
def Leads (F : Fronts) (ts rest : List Token) : Prop := ∃ front, ts = front ++ rest ∧ F.mem front

/-- The place of the token that comes next behind a front. -/
def Points (ts : List Token) (pos : Pos) : Prop :=
  ∃ rest, Leads plain ts rest ∧ pos = (next rest).pos

theorem Leads.refl (ts : List Token) : Leads F ts ts := ⟨[], rfl, F.nil⟩

theorem Leads.mono (hFG : ∀ front, F.mem front → G.mem front) (h : Leads F ts rest) :
    Leads G ts rest := by
  obtain ⟨front, hts, hfront⟩ := h
  exact ⟨front, hts, hFG front hfront⟩

theorem Leads.plain (h : Leads F ts rest) : Leads plain ts rest := h.mono fun _ => F.ne_eof

theorem Leads.trans (h : Leads F ts us) (h' : Leads F us rest) : Leads F ts rest := by
  obtain ⟨front, rfl, hfront⟩ := h
  obtain ⟨front', rfl, hfront'⟩ := h'
  exact ⟨front ++ front', by simp, F.append hfront hfront'⟩

theorem Leads.cons (ht : F.kinds t.kind) (h : Leads F ts rest) : Leads F (t :: ts) rest := by
  obtain ⟨front, rfl, hfront⟩ := h
  exact ⟨[t] ++ front, rfl, F.append (F.single ht) hfront⟩

theorem leads_tail (h : F.kinds (next ts).kind) : Leads F ts ts.tail := by
  cases ts with
  | nil =>
    rw [show (next []).kind = .eof from rfl, F.not_eof] at h
    cases h
  | cons t ts => exact .cons h (.refl ts)

theorem Points.next (ts : List Token) : Points ts (next ts).pos := ⟨ts, .refl ts, rfl⟩

theorem Points.of_leads {pos : Pos} (h : Leads F ts us) (hpos : Points us pos) : Points ts pos := by
  obtain ⟨rest, hrest, rfl⟩ := hpos
  exact ⟨rest, h.plain.trans hrest, rfl⟩

/-- A place that a reader complains of is the place of a token, or there is no end mark. -/
theorem Points.mem_or {pos : Pos} (h : Points ts pos) : pos ∈ ts.map Token.pos ∨
    pos = Token.pastEnd.pos ∧ ∀ t ∈ ts, t.kind ≠ .eof := by
  obtain ⟨rest, ⟨front, rfl, hfront⟩, rfl⟩ := h
  cases rest with
  | nil => exact .inr ⟨rfl, by simpa using plain.ne_eof hfront⟩
  | cons t rest => exact .inl (by simp)

/-- Of the tokens `ts` a front of the class was taken, and a fault is at the next token or at one of
the places. -/
def GuardedAt (F : Fronts) (places : Pos → Prop) (ts : List Token) :
    Except GrammarFault (α × List Token) → Prop
  | .ok (_, rest) => Leads F ts rest
  | .error e => places e.pos ∨ Points ts e.pos

def Guarded (F : Fronts) (places : Pos → Prop) (r : Reader α) : Prop :=
  ∀ ts, GuardedAt F places ts (r ts)

/-- The reader is guarded, and has no places of its own. -/
abbrev Careful (F : Fronts) (r : Reader α) : Prop := ∀ places, Guarded F places r

theorem GuardedAt.of_leads {x : Except GrammarFault (α × List Token)} (h : Leads F ts us)
    (hx : GuardedAt F places us x) : GuardedAt F places ts x := by
  cases x with
  | ok p => exact h.trans hx
  | error e => exact hx.imp_right (.of_leads h)

/-- What is next now may be complained of later. -/
theorem GuardedAt.of_next {x : Except GrammarFault (α × List Token)}
    (h : GuardedAt F (fun pos => places pos ∨ pos = (next ts).pos) ts x) :
    GuardedAt F places ts x := by
  cases x with
  | ok p => exact h
  | error e =>
    rcases h with (hpos | hpos) | hpos
    · exact .inl hpos
    · exact .inr (hpos ▸ .next ts)
    · exact .inr hpos

theorem Guarded.mono (hFG : ∀ front, F.mem front → G.mem front) (h : Guarded F places r) :
    Guarded G places r := by
  intro ts
  have hts := h ts
  cases hrun : r ts with
  | ok p =>
    rw [hrun] at hts
    exact Leads.mono hFG hts
  | error e =>
    rw [hrun] at hts
    exact hts

/-! ### Single steps -/

theorem guarded_pure (a : α) : Guarded F places (pure a : Reader α) := fun ts => Leads.refl ts

theorem Guarded.bind {f : α → Reader β} (h : Guarded F places r)
    (hf : ∀ a, Guarded F places (f a)) : Guarded F places (r >>= f) := by
  intro ts
  change GuardedAt F places ts (r ts >>= fun p => f p.1 p.2)
  have hr := h ts
  cases hrun : r ts with
  | error e =>
    rw [hrun] at hr
    exact hr
  | ok p =>
    rw [hrun] at hr
    exact .of_leads hr (hf p.1 p.2)

theorem Guarded.map {f : α → β} (h : Guarded F places r) : Guarded F places (f <$> r) := by
  rw [map_eq_pure_bind]
  exact h.bind fun a => guarded_pure (f a)

theorem guarded_failAt {cause : GrammarCause} (h : places t.pos) :
    Guarded F places (failAt cause t : Reader α) := fun _ => .inl h

theorem guarded_fail {cause : TokenKind → GrammarCause} :
    Guarded F places (fail cause : Reader α) := fun ts => .inr (.next ts)

theorem guarded_check : Guarded F places (check kind) := fun ts => Leads.refl ts

theorem guarded_checkStatement {words : List String} :
    Guarded F places (checkStatement words) := fun ts => Leads.refl ts

/-- The reader takes a token that passes the test `f`, and leaves any other to `no`. -/
theorem guarded_of_test (f : Token → Bool) (yes : Token → α) (no : Reader α)
    (heq : ∀ ts, r ts = if f (next ts) then .ok (yes (next ts), ts.tail) else no ts)
    (hf : ∀ t, f t → F.kinds t.kind) (hno : Guarded F places no) : Guarded F places r := by
  intro ts
  rw [heq]
  split_ifs with hnext
  · exact leads_tail (hf _ hnext)
  · exact hno ts

theorem kinds_of_beq (hkind : F.kinds kind) (t : Token) (h : t.kind == kind) :
    F.kinds t.kind := by
  rwa [beq_iff_eq.mp h]

theorem kinds_of_isName (hkind : F.kinds .name) {word : String} (t : Token) (h : isName word t) :
    F.kinds t.kind := by
  rw [isName, Bool.and_eq_true] at h
  exact kinds_of_beq hkind t h.1

theorem guarded_accept (hkind : F.kinds kind) : Guarded F places (accept kind) := by
  refine guarded_of_test (·.kind == kind) (fun _ => true) (pure false) (fun ts => ?_)
    (kinds_of_beq hkind) (guarded_pure false)
  rw [accept, check_bind]
  split_ifs <;> rfl

theorem guarded_acceptWord (hkind : F.kinds .name) {word : String} :
    Guarded F places (acceptWord word) := by
  refine guarded_of_test (isName word) (fun _ => true) (pure false) (fun ts => ?_)
    (kinds_of_isName hkind) (guarded_pure false)
  rw [acceptWord]
  change (if isName word (next ts) then _ else _ : Reader Bool) ts = _
  split_ifs <;> rfl

theorem guarded_expect {what : String} (hkind : F.kinds kind) :
    Guarded F places (expect kind what) := by
  refine guarded_of_test (·.kind == kind) id (fail (.missing what)) (fun ts => ?_)
    (kinds_of_beq hkind) guarded_fail
  rw [expect, check_bind]
  split_ifs <;> rfl

theorem guarded_expectWord (hkind : F.kinds .name) {word : String} :
    Guarded F places (expectWord word) := by
  refine guarded_of_test (isName word) id (fail fun _ => .missingWord word) (fun ts => ?_)
    (kinds_of_isName hkind) guarded_fail
  rw [expectWord]
  change (if isName word (next ts) then _ else _ : Reader Token) ts = _
  split_ifs <;> rfl

theorem guarded_nameOr (hkind : F.kinds .name) {cause : GrammarCause} :
    Guarded F places (nameOr cause) := by
  refine guarded_of_test (·.kind == .name) Token.word (fail fun _ => cause) (fun ts => ?_)
    (kinds_of_beq hkind) guarded_fail
  rw [nameOr, check_bind]
  split_ifs <;> rfl

/-! ### Open curly brackets -/

/-- May a token of this kind stand in an expression? -/
def isInner : TokenKind → Bool
  | .text | .comment | .openStatement | .closeStatement | .openExpression | .closeExpression
  | .eof => false
  | _ => true

def isCurly (kind : TokenKind) : Bool := kind == .openCurly || kind == .closeCurly

/-- What stands in an expression, where the curly brackets come in pairs. -/
structure Inner (ts : List Token) : Prop where
  isInner : ∀ t ∈ ts, isInner t.kind
  depth : ∀ depth, depthBehind depth ts = depth

theorem Inner.append (h : Inner ts) (h' : Inner us) : Inner (ts ++ us) where
  isInner := List.forall_mem_append.mpr ⟨h.isInner, h'.isInner⟩
  depth depth := by rw [depthBehind_append, h.depth, h'.depth]

/-- The tokens that stand in expressions. -/
def inner : Fronts where
  kinds kind := isInner kind && !isCurly kind
  mem := Inner
  nil := ⟨by simp, fun _ => rfl⟩
  single {t} h := by
    obtain ⟨kind, value, pos⟩ := t
    rw [Bool.and_eq_true] at h
    refine ⟨List.forall_mem_singleton.mpr h.1, fun depth => ?_⟩
    cases kind with
    | openCurly | closeCurly => cases h.2
    | openExpression => cases h.1
    | _ => rfl
  append := Inner.append
  ne_eof h t ht hkind := by
    have hinner := h.isInner t ht
    rw [hkind] at hinner
    cases hinner

/-- Between two curly brackets. -/
theorem Inner.braces {o c : Token} (ho : o.kind = .openCurly) (hc : c.kind = .closeCurly)
    (h : Inner ts) : Inner (o :: (ts ++ [c])) where
  isInner := by
    rw [List.forall_mem_cons, List.forall_mem_append, List.forall_mem_singleton, ho, hc]
    exact ⟨rfl, h.isInner, rfl⟩
  depth depth := by
    have hopen : depthBehind depth (o :: (ts ++ [c])) =
        depthBehind (o.kind.depthAfter depth) (ts ++ [c]) := rfl
    rw [hopen, depthBehind_append, h.depth, ho]
    change c.kind.depthAfter (depth + 1) = depth
    rw [hc]
    exact Int.add_sub_cancel depth 1

/-- Is a token of this kind the end of a tag, or literal text between tags? -/
def endsConstruct : TokenKind → Bool
  | .text | .comment | .closeStatement | .closeExpression => true
  | _ => false

/-- No curly bracket is open behind the tokens, nor behind any construct among them. -/
structure Closed (ts : List Token) : Prop where
  ne_eof : ∀ t ∈ ts, t.kind ≠ .eof
  total : depthBehind 0 ts = 0
  construct : ∀ front t rest, ts = front ++ t :: rest → endsConstruct t.kind →
    depthBehind 0 (front ++ [t]) = 0

theorem Closed.append (h : Closed ts) (h' : Closed us) : Closed (ts ++ us) where
  ne_eof := List.forall_mem_append.mpr ⟨h.ne_eof, h'.ne_eof⟩
  total := by rw [depthBehind_append, h.total, h'.total]
  construct front t rest hsplit ht := by
    rcases List.append_eq_append_iff.mp hsplit with ⟨vs, rfl, hvs⟩ | ⟨vs, rfl, hvs⟩
    · rw [List.append_assoc, depthBehind_append, h.total]
      exact h'.construct vs t rest hvs ht
    · cases vs with
      | nil =>
        rw [List.append_nil] at h
        rw [depthBehind_append, h.total]
        exact h'.construct [] t rest hvs.symm ht
      | cons v vs =>
        obtain ⟨rfl, rfl⟩ := List.cons.inj hvs
        exact h.construct front t vs rfl ht

/-- What is taken of statements. -/
def closed : Fronts where
  kinds kind := !isCurly kind && kind != .eof
  mem := Closed
  nil := ⟨by simp, rfl, by simp⟩
  single {t} h := by
    obtain ⟨kind, value, pos⟩ := t
    have htotal : depthBehind 0 [⟨kind, value, pos⟩] = 0 := by
      cases kind with
      | openCurly | closeCurly => cases h
      | _ => rfl
    refine ⟨?_, htotal, fun front t rest hsplit _ => ?_⟩
    · rw [List.forall_mem_singleton]
      rintro rfl
      cases h
    · cases front with
      | nil =>
        obtain ⟨rfl, -⟩ := List.cons.inj hsplit
        exact htotal
      | cons u front => simp at hsplit
  append := Closed.append
  ne_eof := Closed.ne_eof

theorem Inner.closed (h : Inner ts) : Closed ts where
  ne_eof := inner.ne_eof h
  total := h.depth 0
  construct front t rest hsplit ht := by
    have hinner := h.isInner t (by rw [hsplit]; simp)
    cases hkind : t.kind with
    | text | comment | closeStatement | closeExpression =>
      rw [hkind] at hinner
      cases hinner
    | _ =>
      rw [hkind] at ht
      cases ht

theorem Careful.closed (h : Careful inner r) : Careful closed r :=
  fun places => (h places).mono fun _ => Inner.closed

end ChatTemplate.Grammar
