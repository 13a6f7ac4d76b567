import ChatTemplate.Proofs.Template.CompileFaults

/-!
# Texts side by side

Where a text compiles and ends with a construct, its tokens stay what they are whatever comes behind
it, and what comes behind it is scanned as if it stood alone (`Program.tokens_append`): the scanner
looks at nothing beyond the end of a construct, and all that it remembers of what came before is the
number of open curly brackets, which is zero behind each construct of what the grammar accepts.
-/

namespace ChatTemplate

variable {cs : List Char} {ts : List Token} {last : Token} {p : Program}

/-- No curly bracket is open behind what is accepted, nor behind a construct in it. -/
theorem Program.closed_of_ofTokens (hts : ∀ t ∈ ts, t.kind ≠ .eof) (hlast : last.kind = .eof)
    (h : ofTokens (ts ++ [last]) = .ok p) : Grammar.Closed ts := by
  have hguarded := Grammar.statements_careful (ts.length + 1) (fun _ => False) (ts ++ [last])
  rw [statements_eq_of_ofTokens hts hlast h] at hguarded
  obtain ⟨front, hfront, hclosed⟩ := hguarded
  rw [List.append_cancel_right hfront]
  exact hclosed

/-- A token that is no end mark stands before the one at the end. -/
theorem exists_of_ne_eof {before rest : List Token} {t : Token}
    (h : ts ++ [last] = before ++ t :: rest) (hlast : last.kind = .eof) (ht : t.kind ≠ .eof) :
    ∃ more, ts = before ++ t :: more := by
  rcases List.append_eq_append_iff.mp h with ⟨us, -, hus⟩ | ⟨us, rfl, hus⟩
  · cases us with
    | nil =>
      obtain ⟨rfl, -⟩ := List.cons.inj hus
      exact absurd hlast ht
    | cons u us => simp at hus
  · cases us with
    | nil =>
      obtain ⟨rfl, -⟩ := List.cons.inj hus
      exact absurd hlast ht
    | cons u us =>
      obtain ⟨rfl, -⟩ := List.cons.inj hus
      exact ⟨us, rfl⟩

/-- The tokens of a text that stands behind another one, of which nothing is remembered. -/
theorem tokensFrom_eq_shifted (base : Pos) (cs : List Char) :
    tokensFrom none 0 base cs.length cs = shifted base (tokens cs) :=
  tokensFrom_after base []

/-- Behind each construct of a text that compiles no curly bracket is open, and scanning goes on
from there. What comes behind a text that ends with a construct has the tokens that it has alone, or
the fault, at the places where it stands. -/
theorem Program.tokens_append (htokens : tokens cs = .ok ts) (hread : ofTokens ts = .ok p) :
    (∀ before t rest, ts = before ++ t :: rest → Grammar.endsConstruct t.kind →
      depthBehind 0 (before ++ [t]) = 0 ∧ ∃ front more, cs = front ++ more ∧
        tokensFrom (some t.kind) 0 (Pos.behind front) more.length more = .ok rest) ∧
    ∀ before t last, ts = before ++ [t, last] →
      t.kind ∈ [TokenKind.closeStatement, .closeExpression, .comment] → ∀ more,
      tokens (cs ++ more) = match tokens more with
        | .ok us => .ok (before ++ t :: us.map (Token.shift (Pos.behind cs)))
        | .error e => .error (e.shift (Pos.behind cs)) := by
  obtain ⟨us, eof, rfl, heof, hus⟩ := exists_eof_of_tokens htokens
  have hclosed := closed_of_ofTokens hus heof hread
  constructor
  · intro before t rest hsplit ht
    have hne : t.kind ≠ .eof := by
      intro hkind
      rw [hkind] at ht
      cases ht
    have hdepth : depthBehind 0 (before ++ [t]) = 0 := by
      obtain ⟨more, rfl⟩ := exists_of_ne_eof hsplit heof hne
      exact hclosed.construct before t more rfl ht
    rw [hsplit] at htokens
    obtain ⟨front, more, hcs, hmore⟩ := exists_tokensFrom_behind le_rfl hne htokens
    rw [hdepth, Pos.start_after] at hmore
    exact ⟨hdepth, front, more, hcs, hmore⟩
  · intro before t last hsplit ht more
    have hends : Lexeme.endsTag (some t.kind) := by
      simp only [List.mem_cons, List.not_mem_nil, or_false] at ht
      rcases ht with ht | ht | ht <;> rw [ht] <;> rfl
    have hus : us = before ++ [t] := by
      have hconcat : us ++ [eof] = before ++ [t] ++ [last] := by simpa using hsplit
      exact (List.append_inj' hconcat rfl).1
    rw [hsplit] at htokens
    have hmore := (tokensFrom_append le_rfl hends htokens).2 more _ le_rfl
    rw [← hus, hclosed.total, Pos.start_after, tokensFrom_eq_shifted (Pos.behind cs)] at hmore
    rw [tokens, hmore]
    cases tokens more <;> rfl

theorem Program.tokens_append_object :
    depthBehind 0 [⟨.openExpression, "\x7b\x7b", ⟨1, 1⟩⟩, ⟨.openCurly, "\x7b", ⟨1, 4⟩⟩,
        ⟨.closeCurly, "\x7d", ⟨1, 5⟩⟩, ⟨.closeExpression, "\x7d\x7d", ⟨1, 7⟩⟩] = 0 ∧
      tokens ("\x7b\x7b \x7b\x7d \x7d\x7d".toList ++ "\n\x7b% !".toList) =
        .error ⟨.badCharacter '!', ⟨2, 4⟩⟩ := by
  have htokens : tokens "\x7b\x7b \x7b\x7d \x7d\x7d".toList = .ok
      [⟨.openExpression, "\x7b\x7b", ⟨1, 1⟩⟩, ⟨.openCurly, "\x7b", ⟨1, 4⟩⟩,
        ⟨.closeCurly, "\x7d", ⟨1, 5⟩⟩, ⟨.closeExpression, "\x7d\x7d", ⟨1, 7⟩⟩,
        ⟨.eof, "", ⟨1, 9⟩⟩] := by decide +kernel
  obtain ⟨hdepth, hmore⟩ := tokens_append (p := [.output (.object [])]) htokens rfl
  refine ⟨(hdepth [_, _, _] _ _ rfl rfl).1, ?_⟩
  rw [hmore [_, _, _] _ _ rfl (by decide)]
  decide +kernel

end ChatTemplate
