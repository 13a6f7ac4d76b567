import ChatTemplate.Datum.Json
import ChatTemplate.Json.Reader
import ChatTemplate.Proofs.Lexeme.Numerals

/-!
# Scalars are read back from JSON

What is written for a constant, an integer or a string is read back (`reads_null`, `reads_bool`,
`reads_int`, `reads_string`). A number ends where its text does only if no digit, point or exponent
follows, so this is said for whatever may follow a value (`Closes`).
-/

namespace ChatTemplate.Json
variable {α β : Type} {c : Codepoint} {rest : List Codepoint}

/-- What may follow a value: nothing, a comma, a closing bracket or a line of its own. -/
def Closes (rest : List Codepoint) : Prop :=
  ∀ c ∈ rest.head?, c = ',' ∨ c = ']' ∨ c = '\x7d' ∨ c = '\n'

/-- The text is taken off the front of whatever may follow a value, and stands for `a`. -/
def Reads (r : Reader α) (text : List Codepoint) (a : α) : Prop :=
  ∀ rest, Closes rest → r (text ++ rest) = some (a, rest)

theorem closes_nil : Closes [] := nofun

theorem closes_cons (hc : c = ',' ∨ c = ']' ∨ c = '\x7d' ∨ c = '\n') (rest : List Codepoint) :
    Closes (c :: rest) := by
  rintro _ ⟨⟩
  exact hc

/-! ### Steps of the reader -/

theorem bind_eq {r : Reader α} {f : α → Reader β} {a : α} {cs : List Codepoint}
    (h : r cs = some (a, rest)) : (r >>= f) cs = f a rest := by
  show (r cs).bind (fun p => f p.1 p.2) = _
  rw [h]
  rfl

theorem accept_self (c : Codepoint) (rest : List Codepoint) :
    accept c (c :: rest) = some (true, rest) := by
  simp [accept]

theorem accept_of_ne {d : Codepoint} (h : d ≠ c) (rest : List Codepoint) :
    accept c (d :: rest) = some (false, d :: rest) := by
  simp [accept, h]

theorem expect_self (c : Codepoint) (rest : List Codepoint) :
    expect c (c :: rest) = some ((), rest) := by
  rw [expect, bind_eq (accept_self c rest)]
  rfl

theorem word?_append (w rest : List Codepoint) : word? w (w ++ rest) = some rest := by
  simp [word?, List.isPrefixOf_iff_prefix]

theorem word?_cons_of_ne {w : Codepoint} {ws : List Codepoint} (h : w ≠ c) :
    word? (w :: ws) (c :: rest) = none := by
  simp [word?, h]

/-! ### Strings -/

theorem hexValue?_digitChar : ∀ d < 16, hexValue? (Nat.digitChar d) = some d := by decide

theorem hexUnit?_hexDigits {n : Nat} (hn : n < 0x10000) (rest : List Codepoint) :
    hexUnit? (Text.hexDigits 4 n ++ rest) = some n := by
  have hvalue (m : Nat) : hexValue? (Nat.digitChar (m % 16)) = some (m % 16) :=
    hexValue?_digitChar _ (Nat.mod_lt _ (by decide))
  have hdigits : Text.hexDigits 4 n = [Codepoint.ofChar (Nat.digitChar (n / 16 / 16 / 16 % 16)),
      .ofChar (Nat.digitChar (n / 16 / 16 % 16)), .ofChar (Nat.digitChar (n / 16 % 16)),
      .ofChar (Nat.digitChar (n % 16))] := rfl
  rw [hdigits]
  simp only [List.cons_append, hexUnit?, hvalue, Option.bind_eq_bind, Option.bind_some]
  refine congrArg some ?_
  omega

/-- Escapes of what is no surrogate stand for themselves. -/
theorem unicode?_hexDigits {n : Nat} (hn : n < 0xD800) (rest : List Codepoint) :
    unicode? (Text.hexDigits 4 n ++ rest) = some (.ofNat n, 4) := by
  have hlow : (decide (0xD800 ≤ n) && decide (n < 0xDC00)) = false := by simp; omega
  simp only [unicode?, hexUnit?_hexDigits (Nat.lt_trans hn (by decide)), Option.bind_eq_bind,
    Option.bind_some, hlow]
  rfl

theorem stringBody_skip (front rest : List Codepoint) :
    stringBody front.length (front ++ rest) = stringBody 0 rest := by
  induction front with
  | nil => rfl
  | cons c front ih => exact ih

/-- However a code point is written inside a string, it is read back. -/
theorem stringBody_jsonChar (c : Codepoint) (rest : List Codepoint) :
    stringBody 0 (Datum.jsonChar c ++ rest) =
      (stringBody 0 rest).map fun (body, rest) => (c :: body, rest) := by
  have hletter (e : Codepoint) (he : e ≠ 'u') (hlookup : escapes.lookup e = some c) :
      stringBody 0 (.ofChar '\\' :: e :: rest) =
        (stringBody 0 rest).map fun (body, rest) => (c :: body, rest) := by
    rw [stringBody.eq_4, if_neg (by decide), if_pos (beq_self_eq_true _)]
    simp only [beq_false_of_ne he, Bool.false_eq_true, if_false, hlookup]
    cases stringBody 0 rest <;> rfl
  unfold Datum.jsonChar
  split_ifs with hself hn hr ht hf hb hcontrol
  · rcases Bool.or_eq_true_iff.mp hself with h | h
    · cases beq_iff_eq.mp h
      exact hletter '"' (by decide) (by decide)
    · cases beq_iff_eq.mp h
      exact hletter '\\' (by decide) (by decide)
  · cases beq_iff_eq.mp hn
    exact hletter 'n' (by decide) (by decide)
  · cases beq_iff_eq.mp hr
    exact hletter 'r' (by decide) (by decide)
  · cases beq_iff_eq.mp ht
    exact hletter 't' (by decide) (by decide)
  · cases beq_iff_eq.mp hf
    exact hletter 'f' (by decide) (by decide)
  · cases beq_iff_eq.mp hb
    exact hletter 'b' (by decide) (by decide)
  · have hquote : (Codepoint.ofChar '\\' == Codepoint.ofChar '"') = false := by decide
    have hself : Codepoint.ofNat c.toNat = c := dif_pos c.isLt
    have hskip : stringBody 4 (Text.hexDigits 4 c.toNat ++ rest) = stringBody 0 rest :=
      stringBody_skip (Text.hexDigits 4 c.toNat) rest
    simp only [List.cons_append, stringBody, hquote, beq_self_eq_true, if_true,
      unicode?_hexDigits (Nat.lt_trans hcontrol (by decide)), hself, Option.bind_eq_bind,
      Option.bind_some, hskip]
    cases stringBody 0 rest <;> rfl
  · obtain ⟨hquote, hslash⟩ := Bool.or_eq_false_iff.mp (Bool.eq_false_iff.mpr hself)
    cases rest <;> simp [stringBody, hquote, hslash, hcontrol]

theorem stringBody_flatMap (s rest : List Codepoint) :
    stringBody 0 (s.flatMap Datum.jsonChar ++ Codepoint.ofChar '"' :: rest) = some (s, rest) := by
  induction s with
  | nil => cases rest <;> simp [stringBody]
  | cons c s ih =>
    rw [List.flatMap_cons, List.append_assoc, stringBody_jsonChar, ih]
    rfl

/-- A string is read back, whatever follows its closing quote. -/
theorem string_jsonString (s : Text) (rest : List Codepoint) :
    string (Datum.jsonString s ++ rest) = some (s, rest) := by
  have htext : Datum.jsonString s ++ rest = Codepoint.ofChar '"' ::
      (s.toList.flatMap Datum.jsonChar ++ Codepoint.ofChar '"' :: rest) := by
    simp [Datum.jsonString]
  have hbody := stringBody_flatMap s.toList rest
  rw [htext, string, bind_eq (expect_self _ _)]
  exact bind_eq hbody

/-! ### Integers -/

/-- The decimal digits of a natural number. -/
def decimal (n : Nat) : List Codepoint := (Nat.toDigits 10 n).map .ofChar

theorem isDigit_of_mem_toDigits {n : Nat} {d : Char} (h : d ∈ Nat.toDigits 10 n) :
    Text.isDigit d := by
  have hdigit := Nat.isDigit_of_mem_toDigits (by decide) (by decide) h
  simp only [Char.isDigit, Bool.and_eq_true, decide_eq_true_eq] at hdigit
  exact Number.isDigit_iff.mpr hdigit

theorem isDigit_of_mem_decimal {n : Nat} (h : c ∈ decimal n) : Text.isDigit c := by
  obtain ⟨d, hd, rfl⟩ := List.mem_map.mp h
  exact isDigit_of_mem_toDigits hd

theorem exists_decimal_cons (n : Nat) : ∃ d ds, decimal n = d :: ds ∧ Text.isDigit d := by
  obtain ⟨d, ds, h⟩ := List.exists_cons_of_ne_nil
    (show decimal n ≠ [] from mt List.map_eq_nil_iff.mp Nat.toDigits_ne_nil)
  exact ⟨d, ds, h, isDigit_of_mem_decimal (h ▸ List.mem_cons_self)⟩

/-- Zero is the only number whose digits begin with a zero. -/
theorem head_decimal_ne_zero {n : Nat} (hn : 0 < n) : (decimal n).head? ≠ some (Codepoint.ofChar '0') := by
  induction n using Nat.strongRecOn with
  | ind n ih =>
    by_cases hlt : n < 10
    · have hdigit : ∀ d < 10, 0 < d → Codepoint.ofChar (Nat.digitChar d) ≠ .ofChar '0' := by decide
      rw [decimal, Nat.toDigits_of_lt_base hlt]
      exact fun h => hdigit n hlt hn (Option.some.inj h)
    · have hge := Nat.not_lt.mp hlt
      obtain ⟨d, ds, h, -⟩ := exists_decimal_cons (n / 10)
      have hsplit : decimal n = decimal (n / 10) ++ [.ofChar (Nat.digitChar (n % 10))] := by
        rw [decimal, Nat.toDigits_of_base_le (by decide) hge, List.map_append]
        rfl
      have hquotient := ih (n / 10) (Nat.div_lt_self hn (by decide)) (Nat.div_pos hge (by decide))
      rw [h] at hquotient
      rw [hsplit, h]
      exact hquotient

theorem Closes.not_digit (h : Closes rest) : ∀ c ∈ rest.head?, Text.isDigit c = false := by
  intro c hc
  rcases h c hc with rfl | rfl | rfl | rfl <;> decide

theorem takeInt_decimal (n : Nat) (h : Closes rest) :
    takeInt (decimal n ++ rest) = (decimal n, rest) := by
  obtain ⟨d, ds, hdigits, -⟩ := exists_decimal_cons n
  rcases Nat.eq_zero_or_pos n with rfl | hn
  · show takeInt (Codepoint.ofChar '0' :: rest) = _
    rw [takeInt, show Codepoint.ofChar '0' :: rest = [Codepoint.ofChar '0'] ++ rest from rfl,
      word?_append]
    rfl
  have hzero : word? ['0'] (decimal n ++ rest) = none := by
    have hhead := head_decimal_ne_zero hn
    rw [hdigits] at hhead ⊢
    exact word?_cons_of_ne fun heq => hhead (congrArg some heq.symm)
  have hall : ∀ c ∈ decimal n, Text.isDigit c := fun c hc => isDigit_of_mem_decimal hc
  have htake : rest.takeWhile Text.isDigit = [] ∧ rest.dropWhile Text.isDigit = rest := by
    cases rest with
    | nil => exact ⟨rfl, rfl⟩
    | cons c cs => simp [h.not_digit c rfl]
  rw [takeInt, hzero]
  dsimp only
  rw [List.span_eq_takeWhile_dropWhile, List.takeWhile_append_of_pos hall,
    List.dropWhile_append_of_pos hall, htake.1, htake.2, List.append_nil]

theorem Closes.takeFraction (h : Closes rest) : takeFraction rest = ([], rest) := by
  cases rest with
  | nil => rfl
  | cons c cs =>
    have hpoint : word? ['.'] (c :: cs) = none := by
      apply word?_cons_of_ne
      rcases h c rfl with rfl | rfl | rfl | rfl <;> decide
    rw [Json.takeFraction, hpoint]

theorem Closes.takeExponent (h : Closes rest) : takeExponent rest = ([], rest) := by
  cases rest with
  | nil => rfl
  | cons c cs =>
    have hmark : (c == Codepoint.ofChar 'e' || c == Codepoint.ofChar 'E') = false := by
      rcases h c rfl with rfl | rfl | rfl | rfl <;> decide
    rw [Json.takeExponent, hmark]
    rfl

/-- The minus of a number below zero. -/
def sign (negative : Bool) : List Codepoint := if negative then [.ofChar '-'] else []

/-- The digits of a number, with a minus or without, spell it. -/
theorem readInt?_decimal (negative : Bool) (n : Nat) :
    Number.readInt? (sign negative ++ decimal n) = some (Double.signed negative n) := by
  have hdigits : ∀ d ∈ Nat.toDigits 10 n, Text.isDigit d := fun d hd => isDigit_of_mem_toDigits hd
  have hunsigned : Unsigned (Nat.toDigits 10 n) := .whole Nat.toDigits_ne_nil hdigits
  have hvalue : Number.ofDigits ((Nat.toDigits 10 n).map fun d => d.toNat - 0x30) = n := by
    rw [Number.ofDigits, List.foldl_map]
    exact Nat.ofDigitChars_ten_toDigits
  have htake : Number.takeDigits (decimal n) =
      ((Nat.toDigits 10 n).map fun d => d.toNat - 0x30, []) := Number.takeDigits_digits hdigits
  have hread (cs : List Codepoint) (hstrip : Text.strip Text.isBlank cs = cs)
      (hsign : Number.takeSign cs = (negative, decimal n)) :
      Number.readInt? cs = some (Double.signed negative n) := by
    unfold Number.readInt?
    rw [hstrip, hsign]
    dsimp only
    rw [htake]
    generalize hds : (Nat.toDigits 10 n).map (fun d => d.toNat - 0x30) = ds at hvalue
    cases ds with
    | nil => exact absurd (List.map_eq_nil_iff.mp hds) Nat.toDigits_ne_nil
    | cons d ds => exact congrArg (fun n => some (Double.signed negative n)) hvalue
  cases negative with
  | false =>
    obtain ⟨d, ds, hcons, hd⟩ := exists_decimal_cons n
    refine hread _ (Number.strip_numeral (fun _ h => h) (.unsigned hunsigned)) ?_
    have hminus : (d == Codepoint.ofChar '-') = false := beq_false_of_ne (by rintro rfl; cases hd)
    have hplus : (d == Codepoint.ofChar '+') = false := beq_false_of_ne (by rintro rfl; cases hd)
    show Number.takeSign (decimal n) = _
    rw [hcons]
    simp [Number.takeSign, hminus, hplus]
  | true =>
    have hsigned : Numeral ('-' :: Nat.toDigits 10 n) := .signed (.inr rfl) hunsigned
    have hstrip := Number.strip_numeral (fun _ h => h) hsigned
    exact hread _ hstrip rfl

theorem toList_toString_int (i : Int) :
    Text.toList (toString i) = sign (decide (i < 0)) ++ decimal i.natAbs := by
  rw [Text.toList_ofString]
  show i.repr.toList.map Codepoint.ofChar = _
  rw [Int.repr_eq_if]
  by_cases hi : i < 0
  · rw [if_neg (Int.not_le.mpr hi), decide_eq_true hi, String.toList_append, Nat.toList_repr,
      List.map_append, show (-i).toNat = i.natAbs by omega]
    rfl
  · rw [if_pos (Int.not_lt.mp hi), decide_eq_false hi, Nat.toList_repr,
      show i.toNat = i.natAbs by omega]
    rfl

theorem signed_natAbs (i : Int) : Double.signed (decide (i < 0)) i.natAbs = i := by
  unfold Double.signed
  split_ifs with h
  · have := of_decide_eq_true h
    omega
  · have := of_decide_eq_false (Bool.eq_false_iff.mpr h)
    omega

/-- Digits after a sign or without one, and nothing that makes them a decimal, are an integer. -/
theorem number_decimal (negative : Bool) (n : Nat) (h : Closes rest) :
    number (sign negative ++ decimal n ++ rest) = some (.int (Double.signed negative n), rest) := by
  obtain ⟨d, ds, hcons, hd⟩ := exists_decimal_cons n
  have hempty : (decimal n).isEmpty = false := by rw [hcons]; rfl
  have hminus : word? ['-'] (decimal n ++ rest) = none := by
    rw [hcons]
    exact word?_cons_of_ne (by rintro rfl; cases hd)
  have hcases : number (sign negative ++ (decimal n ++ rest)) =
      (Number.readInt? (sign negative ++ decimal n)).map fun i => (.int i, rest) := by
    cases negative with
    | false =>
      rw [show sign false = [] from rfl, List.nil_append, number, hminus]
      simp [takeInt_decimal n h, h.takeFraction, h.takeExponent, hempty]
    | true =>
      rw [show sign true = [.ofChar '-'] from rfl, number, word?_append]
      simp [takeInt_decimal n h, h.takeFraction, h.takeExponent, hempty]
  rw [List.append_assoc, hcases, readInt?_decimal]
  rfl

theorem number_int (i : Int) (h : Closes rest) :
    number (Text.toList (toString i) ++ rest) = some (.int i, rest) := by
  rw [toList_toString_int, number_decimal _ _ h, signed_natAbs]

/-! ### Constants and numbers -/

/-- The code points of a word that is taken are those of the text. -/
theorem word?_eq_none {w cs : List Codepoint} {i : Nat} (hi : i < w.length) (hc : cs[i]? = some c)
    (hmem : c ∉ w) : word? w cs = none := by
  refine if_neg fun hprefix => hmem ?_
  obtain ⟨rest, rfl⟩ := List.isPrefixOf_iff_prefix.mp hprefix
  rw [List.getElem?_append_left hi] at hc
  exact List.mem_of_getElem? hc

theorem scalar_null (rest : List Codepoint) :
    scalar (Text.toList "null" ++ rest) = some (.null, rest) :=
  rfl

theorem scalar_bool (b : Bool) (rest : List Codepoint) :
    scalar (Text.toList (if b then "true" else "false") ++ rest) = some (.bool b, rest) := by
  cases b <;> rfl

/-- No constant has a digit in it. -/
theorem isDigit_constants : ∀ entry ∈ constants, 2 ≤ entry.1.toList.length ∧
    ∀ c ∈ entry.1.toList, Text.isDigit c = false := by
  decide

theorem scalar_of_no_constant {points : List Codepoint}
    (h : ∀ entry ∈ constants, word? entry.1.toList points = none) : scalar points = number points := by
  unfold scalar
  rw [List.findSome?_eq_none_iff.mpr fun entry hentry =>
    Option.map_eq_none_iff.mpr (h entry hentry)]

theorem scalar_int (i : Int) (h : Closes rest) :
    scalar (Text.toList (toString i) ++ rest) = some (.int i, rest) := by
  obtain ⟨d, ds, hcons, hd⟩ := exists_decimal_cons i.natAbs
  refine (scalar_of_no_constant fun entry hentry => ?_).trans (number_int i h)
  obtain ⟨hlength, hdigits⟩ := isDigit_constants entry hentry
  have hsign : (sign (decide (i < 0))).length < entry.1.toList.length := by
    unfold sign
    split <;> exact Nat.lt_of_lt_of_le (by decide) hlength
  have hdigit : (Text.toList (toString i) ++ rest)[(sign (decide (i < 0))).length]? = some d := by
    rw [toList_toString_int, hcons]
    simp
  refine word?_eq_none hsign hdigit fun hmem => ?_
  exact absurd (hdigits d hmem) (by simp [hd])

end ChatTemplate.Json
