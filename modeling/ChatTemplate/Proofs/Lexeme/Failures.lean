import ChatTemplate.Proofs.Lexeme.Lossless

/-!
# Where scanning fails

What a failed scan had consumed is a front of the text it was given, so that the place it complains
of is the place of a character of the text or of its end (`exists_behind_of_tokens`). Each scanner
has its own lemma, as for what it takes.
-/

namespace ChatTemplate
namespace Lexeme

variable {α : Type} {last : Option TokenKind} {depth : Int} {cs front rest : List Char}
  {e : LexFailure}

theorem bind_eq_error {ε β : Type} {x : Except ε α} {f : α → Except ε β} {e : ε} :
    (x >>= f) = .error e ↔ x = .error e ∨ ∃ a, x = .ok a ∧ f a = .error e := by
  cases x <;> simp [Bind.bind, Except.bind]

theorem afterConsuming_eq_error {x : Except LexFailure α} (h : afterConsuming front x = .error e) :
    ∃ e', x = .error e' ∧ e.consumed = front ++ e'.consumed := by
  cases x with
  | ok a => cases h
  | error e' =>
    cases h
    exact ⟨e', rfl, rfl⟩

theorem takeRun_error {p : Char → Bool} (h : takeRun p cs = .error e) : e.consumed <+: cs := by
  rw [takeRun] at h
  split at h
  · split_ifs at h
    cases h
    exact List.prefix_refl cs
  · cases h

theorem takeNumber_error (h : takeNumber cs = .error e) : e.consumed <+: cs := by
  rw [takeNumber, bind_eq_error] at h
  rcases h with h | ⟨⟨whole, more⟩, hwhole, h⟩
  · exact takeRun_error h
  · obtain ⟨rfl, -⟩ := takeRun_ok hwhole
    dsimp only at h
    split at h
    · rename_i d more
      split_ifs at h
      · rcases bind_eq_error.mp h with h | ⟨_, _, h⟩
        · obtain ⟨e', he', hconsumed⟩ := afterConsuming_eq_error h
          rw [hconsumed, List.append_assoc, List.prefix_append_right_inj, List.singleton_append,
            List.cons_prefix_cons]
          exact ⟨rfl, takeRun_error he'⟩
        · cases h
      · cases h
    · cases h

theorem takeString_error {quote : Char} (h : takeString quote cs = .error e) :
    e.consumed <+: cs := by
  fun_induction takeString quote cs generalizing e with
  | case1 =>
    cases h
    exact List.nil_prefix
  | case2 => cases h
  | case3 c =>
    cases h
    exact List.prefix_refl _
  | case4 c hq hb x cs he =>
    cases h
    exact List.prefix_append [c, x] cs
  | case5 c hq hb x cs v he ih =>
    rcases bind_eq_error.mp h with h | ⟨_, _, h⟩
    · obtain ⟨e', he', hconsumed⟩ := afterConsuming_eq_error h
      rw [hconsumed]
      exact (List.prefix_append_right_inj [c, x]).mpr (ih he')
    · cases h
  | case6 c cs hq hb ih =>
    rcases bind_eq_error.mp h with h | ⟨_, _, h⟩
    · obtain ⟨e', he', hconsumed⟩ := afterConsuming_eq_error h
      rw [hconsumed]
      exact (List.prefix_append_right_inj [c]).mpr (ih he')
    · cases h

theorem scanInTag_error (h : scanInTag last depth cs = .error e) : e.consumed <+: cs := by
  unfold scanInTag at h
  split at h
  · cases h
    exact List.nil_prefix
  rename_i c rest
  by_cases hsign : (c == '+' || c == '-') && !endsOperand last
  · rw [if_pos hsign] at h
    split_ifs at h
    rcases bind_eq_error.mp h with h | ⟨_, _, h⟩
    · obtain ⟨e', he', hconsumed⟩ := afterConsuming_eq_error h
      rw [hconsumed]
      exact (List.prefix_append_right_inj [c]).mpr (takeNumber_error he')
    · cases h
  rw [if_neg hsign] at h
  cases hop : operator? depth (c :: rest) with
  | some entry => simp only [hop] at h; cases h
  | none =>
    simp only [hop] at h
    split_ifs at h
    · rcases bind_eq_error.mp h with h | ⟨_, _, h⟩
      · obtain ⟨e', he', hconsumed⟩ := afterConsuming_eq_error h
        rw [hconsumed]
        exact (List.prefix_append_right_inj [c]).mpr (takeString_error he')
      · cases h
    · rcases bind_eq_error.mp h with h | ⟨_, _, h⟩
      · exact takeNumber_error h
      · cases h
    · rcases bind_eq_error.mp h with h | ⟨_, _, h⟩
      · exact takeRun_error h
      · cases h
    · cases h
      exact List.nil_prefix

theorem scanAfterBlanks_error (h : scanAfterBlanks last depth cs = .error e) :
    e.consumed <+: cs := by
  rw [scanAfterBlanks, bind_eq_error] at h
  rcases h with h | ⟨⟨gap, more⟩, hgap, h⟩
  · exact takeRun_error h
  · obtain ⟨rfl, -⟩ := takeRun_ok hgap
    rcases bind_eq_error.mp h with h | ⟨_, _, h⟩
    · obtain ⟨e', he', hconsumed⟩ := afterConsuming_eq_error h
      rw [hconsumed]
      exact (List.prefix_append_right_inj gap).mpr (scanInTag_error he')
    · cases h

theorem scan_error (h : scan last depth cs = .error e) : e.consumed <+: cs := by
  rw [scan] at h
  generalize (if endsTag last then splitAtTag cs else ([], cs)) = literal at h
  dsimp only at h
  split_ifs at h
  · split at h
    · cases h
    · cases h
      exact List.nil_prefix
  · exact scanAfterBlanks_error h

end Lexeme

variable {last : Option TokenKind} {depth : Int} {pos : Pos} {cs : List Char} {e : LexFault}

theorem exists_after_of_tokensFrom {n : Nat} (h : tokensFrom last depth pos n cs = .error e) :
    ∃ front, front <+: cs ∧ e.pos = pos.after front := by
  induction n generalizing last depth pos cs with
  | zero => cases h
  | succ n ih =>
    rcases eq_or_ne cs [] with rfl | hcs
    · cases h
    rw [tokensFrom.eq_3 _ _ _ _ _ hcs] at h
    cases hscan : Lexeme.scan last depth cs with
    | error e' =>
      rw [hscan] at h
      cases h
      exact ⟨e'.consumed, Lexeme.scan_error hscan, rfl⟩
    | ok x =>
      rw [hscan] at h
      rcases Lexeme.bind_eq_error.mp h with h | ⟨_, _, h⟩
      · obtain ⟨front, hfront, hpos⟩ := ih h
        have happend := (Lexeme.scan_sound hscan).eq_append
        refine ⟨x.gap ++ x.text ++ front, ?_, ?_⟩
        · rw [happend]
          exact (List.prefix_append_right_inj _).mpr hfront
        · rw [hpos, List.append_assoc, Pos.after_append, Pos.after_append]
      · cases h

/-- Scanning complains of a character of the text or of its end. -/
theorem exists_behind_of_tokens (h : tokens cs = .error e) :
    ∃ front, front <+: cs ∧ e.pos = Pos.behind front := by
  obtain ⟨front, hfront, hpos⟩ := exists_after_of_tokensFrom h
  exact ⟨front, hfront, by rw [hpos, Pos.start_after]⟩

end ChatTemplate
