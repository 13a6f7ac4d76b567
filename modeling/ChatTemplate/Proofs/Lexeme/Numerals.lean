import ChatTemplate.Number.Reading
import ChatTemplate.Proofs.Lexeme.Scan

/-!
# Numerals can be read

A number token is an optional sign, decimal digits and an optional fraction (`Numeral`), and such a
text spells a number: a double (`Numeral.readFloat?_isSome`), and without a point an integer
(`Numeral.readInt?_isSome`).
-/

namespace ChatTemplate
open Text

variable {cs front rest : List Char} {last : Option TokenKind} {depth : Int}

/-- Digits with an optional fraction. -/
inductive Unsigned : List Char → Prop
  | whole {ds : List Char} (hne : ds ≠ []) (hds : ∀ d ∈ ds, isDigit d) : Unsigned ds
  | fraction {ds fs : List Char} (hne : ds ≠ []) (hds : ∀ d ∈ ds, isDigit d) (hfs : fs ≠ [])
      (hfraction : ∀ d ∈ fs, isDigit d) : Unsigned (ds ++ '.' :: fs)

/-- What a number token is written with. -/
inductive Numeral : List Char → Prop
  | unsigned {cs : List Char} (h : Unsigned cs) : Numeral cs
  | signed {cs : List Char} {sign : Char} (hsign : sign = '+' ∨ sign = '-') (h : Unsigned cs) :
      Numeral (sign :: cs)

/-! ### The scanner -/

namespace Lexeme

theorem takeRun_isDigit (h : takeRun (fun c : Char => isDigit c) cs = .ok (front, rest)) :
    ∀ d ∈ front, isDigit d := by
  obtain ⟨-, rfl⟩ := takeRun_ok h
  exact fun d hd => List.mem_takeWhile_imp (p := fun c : Char => isDigit c) hd

theorem takeRun_ne_nil {p : Char → Bool} {c : Char} (h : takeRun p (c :: cs) = .ok (front, rest))
    (hc : p c) : front ≠ [] := by
  obtain ⟨-, rfl⟩ := takeRun_ok h
  simp [hc]

theorem takeNumber_unsigned {d : Char} (hd : isDigit d)
    (h : takeNumber (d :: cs) = .ok (front, rest)) : Unsigned front := by
  rw [takeNumber, bind_eq_ok] at h
  obtain ⟨⟨whole, more⟩, hwhole, h⟩ := h
  have hne := takeRun_ne_nil hwhole hd
  have hdigits := takeRun_isDigit hwhole
  dsimp only at h
  split at h
  · rename_i d' more
    split_ifs at h with hd'
    · rw [bind_eq_ok] at h
      obtain ⟨⟨fraction, more⟩, hfraction, h⟩ := h
      rw [afterConsuming_eq_ok] at hfraction
      cases h
      exact .fraction hne hdigits (takeRun_ne_nil hfraction hd') (takeRun_isDigit hfraction)
    · cases h
      exact .whole hne hdigits
  · cases h
    exact .whole hne hdigits

theorem operators_ne_number : ∀ entry ∈ operators, entry.2 ≠ .number := by decide

theorem InTag.numeral {x : Lexeme} (h : InTag last depth cs x) (hkind : x.kind = .number) :
    Numeral x.value := by
  cases h with
  | @signed c cs digits rest hsign hdigit hdigits =>
    cases cs with
    | nil => cases hdigit
    | cons d cs =>
      simp only [Bool.and_eq_true, Bool.or_eq_true, beq_iff_eq] at hsign
      exact .signed hsign.1 (takeNumber_unsigned hdigit hdigits)
  | operator _ hop =>
    exact absurd hkind (operators_ne_number _ (List.mem_of_find?_eq_some hop))
  | number _ _ _ hdigit hdigits => exact .unsigned (takeNumber_unsigned hdigit hdigits)
  | unary | string | word => cases hkind

theorem scan_numeral {x : Lexeme} (h : scan last depth cs = .ok x) (hkind : x.kind = .number) :
    Numeral x.value := by
  cases Scanned.of_scan h with
  | text | comment => cases hkind
  | inTag _ _ _ hx => exact hx.numeral hkind

end Lexeme

theorem tokensFrom_numeral {pos : Pos} {n : Nat} {ts : List Token}
    (h : tokensFrom last depth pos n cs = .ok ts) :
    ∀ t ∈ ts, t.kind = .number → Numeral t.value.toList := by
  have hend : ∀ t ∈ [(⟨.eof, "", pos⟩ : Token)], t.kind = .number → Numeral t.value.toList := by
    simp
  induction n generalizing last depth pos cs ts with
  | zero =>
    cases h
    simp
  | succ n ih =>
    rcases eq_or_ne cs [] with rfl | hcs
    · cases h
      exact hend
    rw [tokensFrom.eq_3 _ _ _ _ _ hcs] at h
    cases hscan : Lexeme.scan last depth cs with
    | error e =>
      rw [hscan] at h
      cases h
    | ok x =>
      rw [hscan] at h
      obtain ⟨ts, hts, h⟩ := Lexeme.bind_eq_ok.mp h
      cases h
      refine List.forall_mem_cons.mpr ⟨fun hkind => ?_, ih hts (by simp)⟩
      rw [String.toList_ofList]
      exact Lexeme.scan_numeral hscan hkind

/-! ### Reading -/

namespace Number

theorem isDigit_iff {d : Char} : isDigit d ↔ 0x30 ≤ d.toNat ∧ d.toNat ≤ 0x39 := by
  rw [isDigit, Bool.and_eq_true]
  exact and_congr decide_eq_true_iff decide_eq_true_iff

theorem digitValue?_of_isDigit {d : Char} (h : isDigit d) :
    digitValue? d = some (d.toNat - 0x30) := by
  obtain ⟨hge, hle⟩ := isDigit_iff.mp h
  have hlt : d.toNat < 0x3A := by omega
  simp [digitValue?, zeros, hge, hlt]

theorem ofChar_ne_of_isDigit {d c : Char} (h : isDigit d) (hc : ¬ isDigit c) :
    (Codepoint.ofChar d == Codepoint.ofChar c) = false := by
  rw [beq_eq_false_iff_ne]
  exact fun heq => hc (Codepoint.ofChar_injective heq ▸ h)

/-- Digits are read up to what is neither a digit nor an underscore. -/
theorem takeDigits_append {ds : List Char} (hds : ∀ d ∈ ds, isDigit d) {rest : List Codepoint}
    (hrest : ∀ c ∈ rest.head?, digitValue? c = none ∧ (c == '_') = false) :
    takeDigits (ds.map .ofChar ++ rest) = (ds.map fun d => d.toNat - 0x30, rest) := by
  induction ds with
  | nil =>
    cases rest with
    | nil => rfl
    | cons c cs =>
      have hc := (hrest c rfl).1
      cases cs with
      | nil => simp [takeDigits, hc]
      | cons c' cs => simp [takeDigits, hc]
  | cons d ds ih =>
    obtain ⟨hd, hds⟩ := List.forall_mem_cons.mp hds
    have hvalue := digitValue?_of_isDigit hd
    have hhead : ∀ c ∈ (ds.map Codepoint.ofChar ++ rest).head?, (c == '_') = false := by
      cases ds with
      | nil => exact fun c hc => (hrest c hc).2
      | cons d' ds =>
        rintro _ ⟨⟩
        exact ofChar_ne_of_isDigit (hds d' List.mem_cons_self) (by decide)
    have ih := ih hds
    cases hmore : ds.map Codepoint.ofChar ++ rest with
    | nil =>
      obtain ⟨hnil, rfl⟩ := List.append_eq_nil_iff.mp hmore
      obtain rfl := List.map_eq_nil_iff.mp hnil
      simp [takeDigits, hvalue]
    | cons c cs =>
      have hc : (c == '_') = false := hhead c (by rw [hmore]; rfl)
      rw [hmore] at ih
      simp only [List.map_cons, List.cons_append, hmore, takeDigits, hvalue, hc, ih]
      simp

theorem takeDigits_digits {ds : List Char} (hds : ∀ d ∈ ds, isDigit d) :
    takeDigits (ds.map .ofChar) = (ds.map fun d => d.toNat - 0x30, []) := by
  have hread := takeDigits_append (hds) (show ∀ c ∈ ([] : List Codepoint).head?, _ from nofun)
  rwa [List.append_nil] at hread

theorem strip_of_forall {p : Codepoint → Bool} {cs : List Codepoint} (h : ∀ c ∈ cs, p c = false) :
    strip p cs = cs := by
  have hdrop {xs : List Codepoint} (hxs : ∀ c ∈ xs, p c = false) : xs.dropWhile p = xs := by
    cases xs with
    | nil => rfl
    | cons c xs => rw [List.dropWhile_cons_of_neg (by simp [hxs c List.mem_cons_self])]
  unfold strip stripRight stripLeft
  rw [hdrop h, hdrop (fun c hc => h c (List.mem_reverse.mp hc)), List.reverse_reverse]

/-- The characters of a numeral. -/
theorem isBlank_of_mem_numeral {cs : List Char} (h : Numeral cs) {c : Char} (hc : c ∈ cs) :
    isBlank c = false := by
  have hdigit {d : Char} (hd : isDigit d) : isBlank d = false := by
    obtain ⟨hge, hle⟩ := isDigit_iff.mp hd
    rw [Bool.eq_false_iff, isBlank]
    intro hblank
    simp only [Bool.or_eq_true, Bool.and_eq_true, decide_eq_true_eq, beq_iff_eq] at hblank
    rw [Codepoint.toNat_ofChar] at hblank
    omega
  have hunsigned {cs : List Char} (h : Unsigned cs) : ∀ c ∈ cs, isBlank c = false := by
    cases h with
    | whole hne hds => exact fun c hc => hdigit (hds c hc)
    | fraction hne hds hfs hfraction =>
      refine List.forall_mem_append.mpr ⟨fun c hc => hdigit (hds c hc), ?_⟩
      exact List.forall_mem_cons.mpr ⟨by decide, fun c hc => hdigit (hfraction c hc)⟩
  cases h with
  | unsigned h => exact hunsigned h c hc
  | signed hsign h =>
    rcases List.mem_cons.mp hc with rfl | hc
    · rcases hsign with rfl | rfl <;> decide
    · exact hunsigned h c hc

theorem strip_numeral {p : Codepoint → Bool} (hp : ∀ c, isBlank c = false → p c = false)
    {cs : List Char} (h : Numeral cs) : strip p (cs.map .ofChar) = cs.map .ofChar := by
  refine strip_of_forall (List.forall_mem_map.mpr fun c hc => ?_)
  exact hp _ (isBlank_of_mem_numeral h hc)

/-- Behind the sign there is an unsigned numeral. -/
theorem takeSign_numeral {cs : List Char} (h : Numeral cs) :
    ∃ negative ds, takeSign (cs.map .ofChar) = (negative, ds.map .ofChar) ∧ Unsigned ds ∧
      ds <:+ cs := by
  cases h with
  | unsigned h =>
    refine ⟨false, cs, ?_, h, List.suffix_rfl⟩
    have hhead : ∃ d ds, cs = d :: ds ∧ isDigit d := by
      cases h with
      | @whole ds hne hds | @fraction ds _ hne hds =>
        obtain ⟨d, ds, rfl⟩ := List.exists_cons_of_ne_nil hne
        exact ⟨d, _, rfl, hds d List.mem_cons_self⟩
    obtain ⟨d, ds, rfl, hd⟩ := hhead
    have hminus := ofChar_ne_of_isDigit hd (c := '-') (by decide)
    have hplus := ofChar_ne_of_isDigit hd (c := '+') (by decide)
    simp [takeSign, hminus, hplus]
  | @signed cs sign hsign h =>
    rcases hsign with rfl | rfl
    · exact ⟨false, cs, rfl, h, List.suffix_cons _ _⟩
    · exact ⟨true, cs, rfl, h, List.suffix_cons _ _⟩

end Number

namespace Numeral
variable (h : Numeral cs)
include h

theorem readInt?_isSome (hpoint : '.' ∉ cs) : (Number.readInt? (cs.map .ofChar)).isSome := by
  obtain ⟨negative, ds, hsign, hds, hsuffix⟩ := Number.takeSign_numeral h
  unfold Number.readInt?
  rw [Number.strip_numeral (fun _ h => h) h, hsign]
  cases hds with
  | whole hne hds =>
    obtain ⟨d, ds, rfl⟩ := List.exists_cons_of_ne_nil hne
    dsimp only
    rw [Number.takeDigits_digits hds]
    rfl
  | fraction => exact absurd (hsuffix.subset (by simp)) hpoint

theorem readFloat?_isSome : (Number.readFloat? (cs.map .ofChar)).isSome := by
  obtain ⟨negative, ds, hsign, hds, -⟩ := Number.takeSign_numeral h
  have hmargin (c : Codepoint) (hc : isBlank c = false) : Number.isMargin c = false := by
    rw [Number.isMargin, hc, Bool.false_and]
  unfold Number.readFloat?
  rw [Number.strip_numeral hmargin h, hsign]
  cases hds with
  | whole hne hds =>
    obtain ⟨d, ds, rfl⟩ := List.exists_cons_of_ne_nil hne
    dsimp only
    rw [Number.takeDigits_digits hds]
    rfl
  | @fraction ds fs hne hds hfs hfraction =>
    have hpoint : ∀ c ∈ (Codepoint.ofChar '.' :: fs.map Codepoint.ofChar).head?,
        digitValue? c = none ∧ (c == '_') = false := by
      rintro _ ⟨⟩
      decide
    have hwhole : Number.takeDigits ((ds ++ '.' :: fs).map .ofChar) =
        (ds.map fun d => d.toNat - 0x30, Codepoint.ofChar '.' :: fs.map .ofChar) := by
      rw [List.map_append, List.map_cons, Number.takeDigits_append hds hpoint]
    obtain ⟨d, ds, rfl⟩ := List.exists_cons_of_ne_nil hne
    dsimp only
    rw [hwhole]
    simp only [beq_self_eq_true, if_true, Number.takeDigits_digits hfraction]
    rfl

end Numeral
end ChatTemplate
