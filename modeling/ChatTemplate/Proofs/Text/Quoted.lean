import ChatTemplate.Proofs.Json.Scalars

/-!
# Quoted texts are told apart

A quoted text ends at the quote that it begins with, which stands in it only behind a backslash, and
what is written for a code point is read back whatever follows (`Text.unescape?_quotedChar`). So no
two texts are quoted alike, and what follows the closing quote can be told from the text
(`Text.quoted_append_inj`).
-/

namespace ChatTemplate.Text
variable {quote c : Codepoint} {rest : List Codepoint}

/-! ### Reading escapes -/

/-- The number that hexadecimal digits spell. -/
def hexNumber? (digits : List Codepoint) : Option Nat :=
  digits.foldlM (fun n d => (Json.hexValue? d).map (16 * n + ·)) 0

/-- What a letter behind a backslash stands for by itself. -/
def letterEscapes : List (Codepoint × Codepoint) :=
  [('\\', '\\'), ('\'', '\''), ('"', '"'), ('t', '\t'), ('n', '\n'), ('r', '\r')]

/-- How many digits of a code point follow a letter behind a backslash. -/
def hexEscapes : List (Codepoint × Nat) := [('x', 2), ('u', 4), ('U', 8)]

/-- The code point that the front of a quoted text stands for, and the text behind it. -/
def unescape? : List Codepoint → Option (Codepoint × List Codepoint)
  | [] => none
  | c :: cs =>
    if c == '\\' then
      match cs with
      | [] => none
      | letter :: cs =>
        match letterEscapes.lookup letter with
        | some c => some (c, cs)
        | none => do
          let places ← hexEscapes.lookup letter
          let n ← hexNumber? (cs.take places)
          return (.ofNat n, cs.drop places)
    else some (c, cs)

theorem length_hexDigits (places n : Nat) : (hexDigits places n).length = places := by
  induction places generalizing n with
  | zero => rfl
  | succ places ih => simp [hexDigits, ih]

theorem hexNumber?_hexDigits {places n : Nat} (hn : n < Nat.pow 16 places) :
    hexNumber? (hexDigits places n) = some n := by
  induction places generalizing n with
  | zero =>
    obtain rfl : n = 0 := Nat.lt_one_iff.mp hn
    rfl
  | succ places ih =>
    have hquotient : n / 16 < Nat.pow 16 places := Nat.div_lt_of_lt_mul (Nat.mul_comm .. ▸ hn)
    have hfront : List.foldlM (fun n d => (Json.hexValue? d).map (16 * n + ·)) 0
        (hexDigits places (n / 16)) = some (n / 16) := ih hquotient
    have hlast := Json.hexValue?_digitChar (n % 16) (Nat.mod_lt _ (by decide))
    rw [hexDigits, hexNumber?, List.foldlM_append, hfront]
    simp only [List.foldlM_cons, List.foldlM_nil, hlast, Option.bind_eq_bind, Option.bind_some,
      Option.map_some, Option.pure_def]
    exact congrArg some (Nat.div_add_mod n 16)

theorem unescape?_letter {letter : Codepoint} (h : letterEscapes.lookup letter = some c)
    (rest : List Codepoint) :
    unescape? (.ofChar '\\' :: letter :: rest) = some (c, rest) := by
  simp [unescape?, h]

theorem unescape?_hex {letter : Codepoint} {places : Nat}
    (hletter : letterEscapes.lookup letter = none) (hplaces : hexEscapes.lookup letter = some places)
    (hc : c.toNat < Nat.pow 16 places) (rest : List Codepoint) :
    unescape? (.ofChar '\\' :: letter :: (hexDigits places c.toNat ++ rest)) = some (c, rest) := by
  have hlength := length_hexDigits places c.toNat
  have htake : (hexDigits places c.toNat ++ rest).take places = hexDigits places c.toNat :=
    List.take_left' hlength
  have hdrop : (hexDigits places c.toNat ++ rest).drop places = rest := List.drop_left' hlength
  have hself : Codepoint.ofNat c.toNat = c := dif_pos c.isLt
  simp [unescape?, hletter, hplaces, htake, hdrop, hexNumber?_hexDigits hc, hself]

/-- However a code point is written between quotes, it is read back. -/
theorem unescape?_quotedChar (hquote : quote = '\'' ∨ quote = '"') (c : Codepoint)
    (rest : List Codepoint) : unescape? (quotedChar quote c ++ rest) = some (c, rest) := by
  unfold quotedChar
  dsimp only
  split_ifs with hself ht hn hr hprintable hshort hlong
  · refine unescape?_letter ?_ rest
    rcases Bool.or_eq_true_iff.mp hself with h | h
    · cases beq_iff_eq.mp h
      rcases hquote with rfl | rfl <;> decide
    · cases beq_iff_eq.mp h
      decide
  · cases beq_iff_eq.mp ht
    exact unescape?_letter (by decide) rest
  · cases beq_iff_eq.mp hn
    exact unescape?_letter (by decide) rest
  · cases beq_iff_eq.mp hr
    exact unescape?_letter (by decide) rest
  · have hslash := (Bool.or_eq_false_iff.mp (Bool.eq_false_iff.mpr hself)).2
    simp [unescape?, hslash]
  · exact unescape?_hex (by decide) (by decide) hshort rest
  · exact unescape?_hex (by decide) (by decide) hlong rest
  · exact unescape?_hex (by decide) (by decide) (Nat.lt_trans c.isLt (by decide)) rest

/-! ### Quotes -/

theorem quoteFor_eq (cs : List Codepoint) : quoteFor cs = '\'' ∨ quoteFor cs = '"' := by
  unfold quoteFor
  split
  · exact .inr rfl
  · exact .inl rfl

/-- What stands for a code point does not begin with the quote, which would be read as itself. -/
theorem quotedChar_append_ne (hquote : quote = '\'' ∨ quote = '"') (c : Codepoint)
    (r s : List Codepoint) : quotedChar quote c ++ r ≠ quote :: s := by
  intro h
  have hslash : quote ≠ .ofChar '\\' := by rcases hquote with rfl | rfl <;> decide
  have hread := congrArg unescape? h
  have hitself : unescape? (quote :: s) = some (quote, s) := by simp [unescape?, hslash]
  rw [unescape?_quotedChar hquote, hitself] at hread
  obtain ⟨rfl, -⟩ := Prod.mk.inj (Option.some.inj hread)
  have hescaped : quotedChar c c = [.ofChar '\\', c] := by simp [quotedChar]
  rw [hescaped] at h
  exact hslash (List.cons.inj h).1.symm

theorem quotedChars_append_inj (hquote : quote = '\'' ∨ quote = '"') {cs ds r s : List Codepoint}
    (h : cs.flatMap (quotedChar quote) ++ quote :: r = ds.flatMap (quotedChar quote) ++ quote :: s) :
    cs = ds ∧ r = s := by
  induction cs generalizing ds with
  | nil =>
    cases ds with
    | nil => exact ⟨rfl, (List.cons.inj h).2⟩
    | cons d ds =>
      rw [List.flatMap_cons, List.append_assoc] at h
      exact absurd h.symm (quotedChar_append_ne hquote d _ r)
  | cons c cs ih =>
    rw [List.flatMap_cons, List.append_assoc] at h
    cases ds with
    | nil => exact absurd h (quotedChar_append_ne hquote c _ s)
    | cons d ds =>
      rw [List.flatMap_cons, List.append_assoc] at h
      have hread := congrArg unescape? h
      rw [unescape?_quotedChar hquote, unescape?_quotedChar hquote] at hread
      obtain ⟨rfl, hrest⟩ := Prod.mk.inj (Option.some.inj hread)
      obtain ⟨rfl, rfl⟩ := ih hrest
      exact ⟨rfl, rfl⟩

/-- A quoted text tells the text and where it ends. -/
theorem quoted_append_inj {cs ds r s : List Codepoint} (h : quoted cs ++ r = quoted ds ++ s) :
    cs = ds ∧ r = s := by
  unfold quoted at h
  simp only [List.cons_append, List.append_assoc, List.nil_append] at h
  obtain ⟨hquote, hbody⟩ := List.cons.inj h
  rw [← hquote] at hbody
  exact quotedChars_append_inj (quoteFor_eq cs) hbody

end ChatTemplate.Text
