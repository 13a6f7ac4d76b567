import ChatTemplate.Proofs.Grammar.StmtSound
import ChatTemplate.Proofs.Lexeme.Lossless
import ChatTemplate.Proofs.Lexeme.Numerals
import ChatTemplate.Proofs.Template.Reachable

/-!
# What a rendering fails with

`Template.render_escapes_known`: given values of data, a template that compiles fails with an error
of the template, does not end, or fails at one of the sites that `Escape.Known` lists. Nothing in a
template is misread: its numerals can be read, since they come from number tokens
(`Program.numerals_readable`), and without functions and tests of the host all tests get as many
arguments as they take.
-/

namespace ChatTemplate
open Chunk Variables

variable {layout : Layout} {source : String}

/-- The failure is no escape, or one at a known site. -/
def Fault.Expected : Fault → Prop
  | .escape why => why.Known
  | _ => True

theorem Fault.expected_permits : Permits Fault.Expected where
  error _ _ := trivial
  escape _ h := h
  endless := trivial
  locate f pos h := by
    unfold Fault.locate
    split
    · exact trivial
    · exact h

/-! ### Numerals of a program -/

theorem Expr.tame_of_numerals {e : Expr} {ps : List Chunk} (h : Spelled (.expr e) ps)
    (hps : ∀ t ∈ flat ps, t.kind = .number → Numeral t.value.toList) : e.Tame Fault.Expected := by
  cases e with
  | int w =>
    obtain ⟨hmem, hpoint⟩ := h.int_token
    exact .inl ((hps _ hmem rfl).readInt?_isSome hpoint)
  | float w => exact .inl (hps _ h.float_token rfl).readFloat?_isSome
  | filter e f => exact .inr fun _ => trivial
  | _ => exact trivial

theorem Stmt.tame_expected (inside : Bool) (s : Stmt) : s.Tame Fault.Expected inside := by
  cases s with
  | control sig w => exact .inr trivial
  | filterBlock f body => exact .inr fun _ => trivial
  | _ => exact trivial

/-- A program that compiles is that of some tokens and an end mark. Numbers among them are
numerals. -/
theorem Program.exists_tokens_of_compile {p : Program}
    (h : Program.compile layout source = .ok p) :
    ∃ ts e, Program.ofTokens (ts ++ [e]) = .ok p ∧ e.kind = .eof ∧ (∀ t ∈ ts, t.kind ≠ .eof) ∧
      ∀ t ∈ ts, t.kind = .number → Numeral t.value.toList := by
  unfold Program.compile Program.ofText at h
  cases hts : tokens (layout.normalize source.toList) with
  | error fault =>
    rw [hts] at h
    cases h
  | ok ts =>
    rw [hts] at h
    dsimp only at h
    have hnumerals := tokensFrom_numeral hts
    obtain ⟨pieces, hcut, rfl⟩ := tokensFrom_cut (Nat.le_refl _) hts
    obtain ⟨front, last, rfl, hfront⟩ := hcut.eq_concat_eof
    rw [List.map_append, List.map_singleton] at h hnumerals
    refine ⟨front.map Piece.token, (Piece.eof last).token, ?_, rfl, List.forall_mem_map.mpr hfront,
      fun t ht => hnumerals t (List.mem_append_left _ ht)⟩
    cases hp : Program.ofTokens (front.map Piece.token ++ [(Piece.eof last).token]) with
    | error fault =>
      rw [hp] at h
      cases h
    | ok q =>
      rw [hp] at h
      cases h
      rfl

/-- The numerals of a program that compiles can be read. -/
theorem Program.numerals_readable {p : Program} (h : Program.compile layout source = .ok p) :
    Stmt.AllTame Fault.Expected false p := by
  obtain ⟨ts, e, hp, he, hts, hnumerals⟩ := exists_tokens_of_compile h
  obtain ⟨ps, rfl, hps⟩ := exists_spelled hts he hp
  exact hps.holds (hereditary_forall_tokens _) (fun _ _ => Expr.tame_of_numerals)
    (fun inside s _ _ _ => Stmt.tame_expected inside s)
    (fun inside t body alternate => Stmt.tame_expected inside _) hnumerals false

/-! ### Renderings of data -/

theorem Store.initial_tame (host : Host) (Q : Fault → Prop) : Store.initial.Tame host Q where
  function r := by
    rcases r with _ | _ | _ | r
    · exact trivial
    · exact trivial
    · exact trivial
    · rw [function_of_size_le (by simp [Store.initial, Store.globals])]
      exact trivial
  tests := .inr fun r => by
    rw [frame_of_size_le (Nat.zero_le r)]

/-- Whatever a template that compiles does with data: what it fails with and is no error of the
template is a known escape, if the store holds no function or test of the host. It then holds none
afterwards. -/
theorem Template.render_escapes_known {t : Template} (ht : compile layout source = .ok t)
    {host : Host} {st : Store} (hst : st.Tame host Fault.Expected) {vars keywords : Variables}
    (hvars : ∀ e ∈ vars, e.2.isData) (hkeywords : ∀ e ∈ keywords, e.2.isData) (depth : Nat) :
    (∀ why, (t.render host depth vars keywords).result st = .error (.escape why) → why.Known) ∧
      ((t.render host depth vars keywords).after st).Tame host Fault.Expected := by
  obtain ⟨p, hp, rfl⟩ : ∃ p, Program.compile layout source = .ok p ∧ Template.mk p = t := by
    unfold compile at ht
    cases hp : Program.compile layout source with
    | error fault =>
      rw [hp] at ht
      cases ht
    | ok p =>
      rw [hp] at ht
      exact ⟨p, rfl, Except.ok.inj ht⟩
  have hdata : ∀ e ∈ vars.merge keywords, e.2.isData :=
    Variables.forall_merge (R := fun h => h.isData) hvars hkeywords
  have hmeets := Eval.Tame.render (Contract.tame_liberal Fault.expected_permits) depth (t := ⟨p⟩)
    (Program.numerals_readable hp) (.inr hdata) st hst
  refine ⟨fun why hfail => ?_, hmeets.1⟩
  have hresult := hmeets.2
  rw [hfail] at hresult
  exact hresult

/-! ### Widths out of range -/

/-- The template `{{ a | indent(-9223372036854775809) }}`. -/
def dedented : Template :=
  ⟨[.output (.filter (.name ⟨"a", ⟨1, 4⟩⟩) (.call (.name ⟨"indent", ⟨1, 8⟩⟩)
    [.positional (.int ⟨"-9223372036854775809", ⟨1, 15⟩⟩)]))]⟩

theorem compile_dedented : Template.compile ⟨true, true⟩
    "\x7b\x7b a | indent(-9223372036854775809) \x7d\x7d" = .ok dedented := by
  have h : tokens (Layout.normalize ⟨true, true⟩
      "\x7b\x7b a | indent(-9223372036854775809) \x7d\x7d".toList) = .ok
      [⟨.openExpression, "\x7b\x7b", ⟨1, 1⟩⟩, ⟨.name, "a", ⟨1, 4⟩⟩, ⟨.pipe, "|", ⟨1, 6⟩⟩,
        ⟨.name, "indent", ⟨1, 8⟩⟩, ⟨.openParen, "(", ⟨1, 14⟩⟩,
        ⟨.number, "-9223372036854775809", ⟨1, 15⟩⟩, ⟨.closeParen, ")", ⟨1, 35⟩⟩,
        ⟨.closeExpression, "\x7d\x7d", ⟨1, 37⟩⟩, ⟨.eof, "", ⟨1, 39⟩⟩] := by decide +kernel
  unfold Template.compile Program.compile Program.ofText
  rw [h]
  rfl

/-- No indentation would have to be built for a width below zero, and yet it can be out of range. -/
theorem negative_width_escapes :
    Template.compile ⟨true, true⟩ "\x7b\x7b a | indent(-9223372036854775809) \x7d\x7d" =
      .ok dedented ∧
    ∃ i < 0, (dedented.render Host.none 5 [("a", .string "a")] []).result Store.initial =
      .error (.escape (@Escape.overflow (.width i))) := by
  refine ⟨compile_dedented, -9223372036854775809, by decide, ?_⟩
  rfl

/-- A width out of range is a known escape. -/
theorem dedented_escapes_known :
    let rendered := dedented.render Host.none 5 [("a", .string "a")] []
    (rendered.after Store.initial).Tame Host.none Fault.Expected ∧
      ∃ why, rendered.result Store.initial = .error (.escape why) ∧ why.Known := by
  have hdata : ∀ e ∈ ([("a", .string "a")] : Variables), e.2.isData := by decide
  have hnone : ∀ e ∈ ([] : Variables), e.2.isData := nofun
  have hknown := Template.render_escapes_known compile_dedented
    (Store.initial_tame Host.none Fault.Expected) hdata hnone 5
  refine ⟨hknown.2, @Escape.overflow (.width (-9223372036854775809)), ?_, ?_⟩
  · rfl
  · exact hknown.1 _ rfl

end ChatTemplate
