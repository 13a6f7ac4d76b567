import ChatTemplate.Compile
import ChatTemplate.Proofs.Grammar.Faults
import ChatTemplate.Proofs.Lexeme.Failures

/-!
# Where compiling fails

A template that does not compile is complained of at a character of its settled text or at the end
of the text, by the scanner or by the grammar (`Program.compile_located`): the grammar complains of
tokens only, a token says where it starts, and no reader gets past the end mark. A template that
compiles is read up to the end mark.
-/

namespace ChatTemplate

theorem GrammarCause.kind_mem (cause : GrammarCause) :
    cause.kind ∈ [ErrorKind.missingToken, .malformed] := by
  cases cause <;> simp [kind]

section
variable {cs : List Char} {ts rest : List Token} {last t : Token} {p : Program} {e : GrammarFault}

theorem exists_eof_of_tokens (h : tokens cs = .ok ts) :
    ∃ front last, ts = front ++ [last] ∧ last.kind = .eof ∧ ∀ t ∈ front, t.kind ≠ .eof := by
  obtain ⟨pieces, hcut, rfl⟩ := tokensFrom_cut le_rfl h
  obtain ⟨front, pos, rfl, hfront⟩ := hcut.eq_concat_eof
  exact ⟨front.map Piece.token, ⟨.eof, "", pos⟩, by simp [Piece.eof], rfl,
    List.forall_mem_map.mpr hfront⟩

/-- A token starts behind a front of the text. -/
theorem exists_behind_of_mem (h : tokens cs = .ok ts) (ht : t ∈ ts) :
    ∃ front, front <+: cs ∧ t.pos = Pos.behind front := by
  obtain ⟨pieces, hcut, rfl⟩ := tokensFrom_cut le_rfl h
  obtain ⟨piece, hpiece, rfl⟩ := List.mem_map.mp ht
  obtain ⟨before, after, rfl⟩ := List.append_of_mem hpiece
  refine ⟨before.flatMap Piece.text ++ piece.gap, ?_, ?_⟩
  · rw [hcut.eq_flatMap, List.flatMap_append, List.prefix_append_right_inj, List.flatMap_cons,
      Piece.text, List.append_assoc]
    exact List.prefix_append piece.gap _
  · rw [hcut.pos_of_eq_append rfl, Pos.start_after]

open Grammar in
/-- What is left at the end mark of a list with one end mark. -/
theorem Grammar.Leads.eq_eof (h : Leads closed (ts ++ [last]) rest) (hts : ∀ t ∈ ts, t.kind ≠ .eof)
    (hlast : last.kind = .eof) (hnext : (next rest).kind = .eof) : rest = [last] := by
  obtain ⟨front, hsplit, hfront⟩ := h
  rcases List.append_eq_append_iff.mp hsplit with ⟨us, rfl, hlastrest⟩ | ⟨us, rfl, hrest⟩
  · cases us with
    | nil => exact hlastrest.symm
    | cons u us =>
      obtain ⟨rfl, -⟩ := List.cons.inj hlastrest
      exact absurd hlast (hfront.ne_eof last (by simp))
  · cases us with
    | nil => exact hrest
    | cons u us =>
      rw [hrest] at hnext
      exact absurd hnext (hts u (by simp))

/-- The grammar complains of a token, or at the place past the last one where there is no end
mark. -/
theorem Program.mem_of_ofTokens (h : ofTokens ts = .error e) : e.pos ∈ ts.map Token.pos ∨
    e.pos = Token.pastEnd.pos ∧ ∀ t ∈ ts, t.kind ≠ .eof := by
  have hguarded := Grammar.statements_careful ts.length (fun _ => False) ts
  cases hread : Grammar.statements ts.length ts with
  | ok q =>
    rw [ofTokens, StateT.run, hread] at h
    cases h
  | error e' =>
    rw [ofTokens, StateT.run, hread] at h
    cases h
    rw [hread] at hguarded
    exact (hguarded.resolve_left id).mem_or

/-- An accepted text is read up to its end mark. -/
theorem Program.statements_eq_of_ofTokens (hts : ∀ t ∈ ts, t.kind ≠ .eof) (hlast : last.kind = .eof)
    (h : ofTokens (ts ++ [last]) = .ok p) :
    Grammar.statements (ts.length + 1) (ts ++ [last]) = .ok (p, [last]) := by
  have hguarded := Grammar.statements_careful (ts.length + 1) (fun _ => False) (ts ++ [last])
  rw [ofTokens, StateT.run, List.length_append, List.length_singleton] at h
  cases hread : Grammar.statements (ts.length + 1) (ts ++ [last]) with
  | error e =>
    rw [hread] at h
    cases h
  | ok q =>
    rw [hread] at h hguarded
    cases h
    have hnext := Grammar.next_of_statements hread (by simp)
    exact congrArg Except.ok (Prod.ext rfl (hguarded.eq_eof hts hlast hnext))

theorem Program.tokens_of_ofText (h : ofText cs = .ok p) :
    ∃ ts, tokens cs = .ok ts ∧ ofTokens ts = .ok p := by
  rw [ofText] at h
  split at h
  · cases h
  · rename_i ts hts
    cases hread : ofTokens ts with
    | error e =>
      rw [hread] at h
      cases h
    | ok q =>
      rw [hread] at h
      cases h
      exact ⟨ts, hts, hread⟩

/-- A text that does not compile is complained of at one of its characters or at its end. -/
theorem Program.behind_of_ofText {e : CompileFault} (h : ofText cs = .error e) :
    e.report.kind ∈ [ErrorKind.lexical, .missingToken, .malformed] ∧
      ∃ front, front <+: cs ∧ e.report.pos = some (Pos.behind front) := by
  rw [ofText] at h
  split at h
  · rename_i fault hfault
    cases h
    obtain ⟨front, hfront, hpos⟩ := exists_behind_of_tokens hfault
    exact ⟨List.mem_cons_self, front, hfront, congrArg some hpos⟩
  · rename_i ts hts
    cases hread : ofTokens ts with
    | ok q =>
      rw [hread] at h
      cases h
    | error fault =>
      rw [hread] at h
      cases h
      refine ⟨List.mem_cons_of_mem _ fault.cause.kind_mem, ?_⟩
      obtain ⟨us, last, rfl, hlast, -⟩ := exists_eof_of_tokens hts
      rcases mem_of_ofTokens hread with hmem | ⟨-, hno⟩
      · obtain ⟨t, ht, hpos⟩ := List.mem_map.mp hmem
        obtain ⟨front, hfront, hbehind⟩ := exists_behind_of_mem hts ht
        exact ⟨front, hfront, congrArg some (hpos.symm.trans hbehind)⟩
      · exact absurd hlast (hno last (by simp))

end

/-- A template compiles and all its tokens up to the end mark are taken, or it fails with an error
of one of three kinds, at the place of a character of the settled text or of its end. The grammar
fails, on any tokens, with an error of two kinds, at the place of a token or, where there is no end
mark, past the last one. -/
theorem Program.compile_located (layout : Layout) (source : String) (us : List Token) :
    (match compile layout source with
      | .ok p => ∃ ts last, tokens (layout.normalize source.toList) = .ok (ts ++ [last]) ∧
        last.kind = .eof ∧ (∀ t ∈ ts, t.kind ≠ .eof) ∧
        (Grammar.statements (ts.length + 1)).run (ts ++ [last]) = .ok (p, [last])
      | .error e => e.report.kind ∈ [ErrorKind.lexical, .missingToken, .malformed] ∧
        ∃ pos front, e.report.pos = some pos ∧ 1 ≤ pos.line ∧ 1 ≤ pos.column ∧
          front <+: layout.normalize source.toList ∧ pos = Pos.behind front) ∧
    match ofTokens us with
      | .ok _ => True
      | .error e => e.report.kind ∈ [ErrorKind.missingToken, .malformed] ∧
        (e.pos ∈ us.map Token.pos ∨
          e.pos = Token.pastEnd.pos ∧ ∀ t ∈ us, t.kind ≠ .eof) := by
  constructor
  · cases h : compile layout source with
    | ok p =>
      obtain ⟨ts, hts, hread⟩ := tokens_of_ofText h
      obtain ⟨ts, last, rfl, hlast, hfront⟩ := exists_eof_of_tokens hts
      exact ⟨ts, last, hts, hlast, hfront, statements_eq_of_ofTokens hfront hlast hread⟩
    | error e =>
      obtain ⟨hkind, front, hfront, hpos⟩ := behind_of_ofText h
      obtain ⟨hline, hcolumn⟩ := Pos.one_le_behind front
      exact ⟨hkind, _, front, hpos, hline, hcolumn, hfront, rfl⟩
  · cases h : ofTokens us with
    | ok p => trivial
    | error e => exact ⟨e.cause.kind_mem, mem_of_ofTokens h⟩

/-- The operand that is missing would stand where the text ends. -/
example : (match Program.compile ⟨true, true⟩ "a\n\x7b\x7b 1 +" with
    | .ok _ => none
    | .error e => e.report.pos) = some ⟨2, 7⟩ := by
  decide +kernel

end ChatTemplate
