import ChatTemplate.Proofs.Grammar.Reads
import ChatTemplate.Proofs.Grammar.Spelling

/-!
# What a reader takes

`Takes r P`: whatever tokens the reader `r` is given, those that it takes are the tokens of some
chunks that `P` relates to its answer. There is one lemma for each step a rule of the grammar is
made of; what they take for granted is that no chunk holds an end mark.
-/

namespace ChatTemplate.Grammar
open Reader Chunk

variable {α β : Type} {r : Reader α} {P Q : α → List Chunk → Prop} {n : Nat} {ts rest : List Token}

/-- The tokens that the reader takes are those of chunks that spell what it returns. -/
def Takes (r : Reader α) (P : α → List Chunk → Prop) : Prop :=
  ∀ ts a rest, r ts = .ok (a, rest) → ∃ ps, ts = flat ps ++ rest ∧ P a ps

@[simp] theorem flat_nil : flat [] = [] := rfl

@[simp] theorem flat_cons (p : Chunk) (ps : List Chunk) : flat (p :: ps) = p.tokens ++ flat ps := rfl

@[simp] theorem flat_append (ps qs : List Chunk) : flat (ps ++ qs) = flat ps ++ flat qs :=
  List.flatMap_append ..

@[simp] theorem flat_dropped (ps : List Chunk) : flat (ps.map .dropped) = flat ps :=
  List.flatMap_map ..

/-! ### Single steps -/

theorem Takes.mono (h : Takes r P) (himp : ∀ a ps, P a ps → Q a ps) : Takes r Q := by
  intro ts a rest hr
  obtain ⟨ps, hts, hP⟩ := h ts a rest hr
  exact ⟨ps, hts, himp a ps hP⟩

/-- What becomes of the tokens may be said in another way. -/
theorem Takes.recut (h : Takes r P)
    (himp : ∀ a ps, P a ps → ∃ qs, flat qs = flat ps ∧ Q a qs) : Takes r Q := by
  intro ts a rest hr
  obtain ⟨ps, rfl, hP⟩ := h ts a rest hr
  obtain ⟨qs, hqs, hQ⟩ := himp a ps hP
  exact ⟨qs, by rw [hqs], hQ⟩

theorem takes_pure {a : α} (h : P a []) : Takes (pure a) P := by
  rintro ts _ _ ⟨⟩
  exact ⟨[], rfl, h⟩

theorem bind_eq_ok {f : α → Reader β} {b : β} (h : (r >>= f) ts = .ok (b, rest)) :
    ∃ a us, r ts = .ok (a, us) ∧ f a us = .ok (b, rest) := by
  cases hr : r ts with
  | error e =>
    replace h : (r ts >>= fun p => f p.1 p.2) = .ok (b, rest) := h
    rw [hr] at h
    cases h
  | ok p => exact ⟨p.1, p.2, rfl, by rw [← h, bind_eq hr]⟩

theorem Takes.bind {f : α → Reader β} {R : β → List Chunk → Prop} (h : Takes r P)
    (hf : ∀ a ps, P a ps → Takes (f a) fun b qs => R b (ps ++ qs)) : Takes (r >>= f) R := by
  intro ts b rest hr
  obtain ⟨a, us, ha, hb⟩ := bind_eq_ok hr
  obtain ⟨ps, rfl, hP⟩ := h ts a us ha
  obtain ⟨qs, rfl, hR⟩ := hf a ps hP us b rest hb
  exact ⟨ps ++ qs, by simp, hR⟩

theorem Takes.map {f : α → β} {R : β → List Chunk → Prop} (h : Takes r P)
    (hf : ∀ a ps, P a ps → R (f a) ps) : Takes (f <$> r) R := by
  rw [map_eq_pure_bind]
  exact h.bind fun a ps ha => takes_pure (by simpa using hf a ps ha)

theorem takes_failAt {cause : GrammarCause} {t : Token} : Takes (failAt cause t) P := nofun

theorem takes_fail {cause : TokenKind → GrammarCause} : Takes (fail cause : Reader α) P := nofun

theorem takes_check {kind : TokenKind} {f : Bool → Reader α} (h : ∀ b, Takes (f b) P) :
    Takes (check kind >>= f) P :=
  fun ts => h ((next ts).kind == kind) ts

theorem takes_checkStatement {words : List String} {f : Bool → Reader α}
    (h : ∀ b, Takes (f b) P) : Takes (checkStatement words >>= f) P :=
  fun ts => h _ ts

theorem exists_of_kind {kind : TokenKind} (h : (next ts).kind = kind) (hkind : kind ≠ .eof) :
    ∃ (w : Word) (us : List Token), ts = ⟨kind, w.text, w.pos⟩ :: us := by
  cases ts with
  | nil => exact absurd h.symm hkind
  | cons t us => exact ⟨t.word, us, by rw [← h]; rfl⟩

theorem exists_of_isName {word : String} (h : isName word (next ts) = true) :
    ∃ (pos : Pos) (us : List Token), ts = ⟨.name, word, pos⟩ :: us := by
  simp only [isName, Bool.and_eq_true, beq_iff_eq] at h
  obtain ⟨w, us, rfl⟩ := exists_of_kind h.1 (by decide)
  exact ⟨w.pos, us, by rw [← h.2]; rfl⟩

theorem ne_eof_of_isMark {kind : TokenKind} (h : kind.isMark) : kind ≠ .eof := by
  rintro rfl
  exact absurd h (by decide)

theorem takes_accept {kind : TokenKind} {f : Bool → Reader α} (hkind : kind.isMark)
    (htrue : ∀ w, Takes (f true) fun a ps => P a (.mark kind w hkind :: ps))
    (hfalse : Takes (f false) P) : Takes (accept kind >>= f) P := by
  intro ts a rest h
  by_cases hnext : (next ts).kind = kind
  · rw [bind_eq (accept_of_eq hnext)] at h
    obtain ⟨w, us, rfl⟩ := exists_of_kind hnext (ne_eof_of_isMark hkind)
    obtain ⟨ps, rfl, hP⟩ := htrue w us a rest h
    exact ⟨_, rfl, hP⟩
  · rw [bind_eq (accept_of_ne hnext)] at h
    exact hfalse ts a rest h

theorem takes_acceptWord {word : String} {f : Bool → Reader α} (hmem : word ∈ keywords)
    (htrue : ∀ pos, Takes (f true) fun a ps => P a (.keyword word pos hmem :: ps))
    (hfalse : Takes (f false) P) : Takes (acceptWord word >>= f) P := by
  intro ts a rest h
  cases hnext : isName word (next ts) with
  | false =>
    rw [bind_eq (acceptWord_of_false hnext)] at h
    exact hfalse ts a rest h
  | true =>
    rw [bind_eq (acceptWord_of_true hnext)] at h
    obtain ⟨pos, us, rfl⟩ := exists_of_isName hnext
    obtain ⟨ps, rfl, hP⟩ := htrue pos us a rest h
    exact ⟨_, rfl, hP⟩

theorem takes_expect {kind : TokenKind} {what : String} {f : Token → Reader α} (hkind : kind.isMark)
    (h : ∀ t, Takes (f t) fun a ps => P a (.mark kind t.word hkind :: ps)) :
    Takes (expect kind what >>= f) P := by
  intro ts a rest hr
  by_cases hnext : (next ts).kind = kind
  · obtain ⟨w, us, rfl⟩ := exists_of_kind hnext (ne_eof_of_isMark hkind)
    rw [next_cons] at hnext
    rw [bind_eq (expect_eq hnext)] at hr
    obtain ⟨ps, rfl, hP⟩ := h _ us a rest hr
    exact ⟨_, rfl, hP⟩
  · obtain ⟨t, us, ht, -⟩ := bind_eq_ok hr
    rw [expect, check_bind, beq_false_of_ne hnext] at ht
    cases ht

theorem takes_expectWord {word : String} {f : Token → Reader α} (hmem : word ∈ keywords)
    (h : ∀ t, Takes (f t) fun a ps => P a (.keyword word t.pos hmem :: ps)) :
    Takes (expectWord word >>= f) P := by
  intro ts a rest hr
  obtain ⟨t, us, ht, hr⟩ := bind_eq_ok hr
  replace ht : (if isName word (next ts) then advance else _ : Reader Token) ts = .ok (t, us) := ht
  split_ifs at ht with hnext
  · obtain ⟨pos, us, rfl⟩ := exists_of_isName hnext
    cases ht
    obtain ⟨ps, rfl, hP⟩ := h _ us a rest hr
    exact ⟨_, rfl, hP⟩
  · cases ht

theorem takes_nameOr {cause : GrammarCause} {f : Word → Reader α}
    (h : ∀ w, Takes (f w) fun a ps => P a (.leaf .name w :: ps)) :
    Takes (nameOr cause >>= f) P := by
  intro ts a rest hr
  obtain ⟨w, us, hw, hr⟩ := bind_eq_ok hr
  rw [nameOr, check_bind] at hw
  split_ifs at hw with hnext
  · rw [beq_iff_eq] at hnext
    obtain ⟨w, us, rfl⟩ := exists_of_kind hnext (by decide)
    cases hw
    obtain ⟨ps, rfl, hP⟩ := h _ us a rest hr
    exact ⟨_, rfl, hP⟩
  · cases hw

end ChatTemplate.Grammar
