import ChatTemplate.Eval.Stmt
import ChatTemplate.Proofs.Eval.Outcome
import Mathlib.Algebra.Order.Ring.Int

/-!
# Arithmetic of integers

Integers are added, subtracted and multiplied exactly. One is divided by another exactly where that is
possible, and in doubles elsewhere; the remainder is that of floor division
(`Eval.integer_arithmetic`). Where the quotient would not be finite, the error names both integers, and
the host does not write those of more than `maxDigits` digits: such a division escapes
(`Eval.huge_quotient_escapes`).
-/

namespace ChatTemplate

/-! ### Remainders -/

namespace Number
variable {a b : Int}

theorem fmod_bounds_of_neg (hb : b < 0) : b < a.fmod b ∧ a.fmod b ≤ 0 := by
  have hpos : 0 < -b := by omega
  have hflip : a.fmod b = -(-a).fmod (-b) := by simp
  have hnonneg := Int.fmod_nonneg_of_pos (-a) hpos
  have hlt := Int.fmod_lt_of_pos (-a) hpos
  omega

/-- The remainder has the sign of the divisor. -/
theorem fmod_eq_zero_or_sign_eq (hb : b ≠ 0) : a.fmod b = 0 ∨ (a.fmod b).sign = b.sign := by
  rw [or_iff_not_imp_left]
  intro hr
  rcases Int.lt_or_gt_of_ne hb with hneg | hpos
  · have hle := (fmod_bounds_of_neg (a := a) hneg).2
    rw [Int.sign_eq_neg_one_of_neg hneg, Int.sign_eq_neg_one_of_neg (by omega)]
  · have hle := Int.fmod_nonneg_of_pos a hpos
    rw [Int.sign_eq_one_of_pos hpos, Int.sign_eq_one_of_pos (by omega)]

theorem abs_fmod_lt (hb : b ≠ 0) : |a.fmod b| < |b| := by
  rcases Int.lt_or_gt_of_ne hb with hneg | hpos
  · obtain ⟨hlt, hle⟩ := fmod_bounds_of_neg (a := a) hneg
    rw [abs_of_nonpos hle, abs_of_neg hneg]
    omega
  · rw [abs_of_nonneg (Int.fmod_nonneg_of_pos a hpos), abs_of_pos hpos]
    exact Int.fmod_lt_of_pos a hpos

theorem isZero_int (hb : b ≠ 0) : (Number.int b).isZero = false := by
  simpa [isZero] using hb

end Number

theorem Double.nearest?_eq_none {negative : Bool} {num den : Nat}
    (h : infinityBits ≤ nearestBits num den) : nearest? negative num den = none :=
  if_neg (Nat.not_lt.mpr h)

/-! ### Operators -/

namespace Eval
variable {a b : Int} {st : Store}

theorem binary_divide_of_dvd (hb : b ≠ 0) (h : b ∣ a) :
    binary "/" (.int a) (.int b) = pure (.int (a.fdiv b)) := by
  have hquotient : (Number.int a).div? (.int b) = some (.int (a.fdiv b)) :=
    if_pos (beq_iff_eq.mpr (Int.fmod_eq_zero_of_dvd h))
  show numeric "/" (.int a) (.int b) = _
  simp only [numeric, Number.isZero_int hb, hquotient]
  rfl

/-- The host writes no error that names the integer. -/
def Unwritable (i : Int) : Prop := Nat.pow 10 maxDigits ≤ i.natAbs

theorem integerText_of_not_unwritable {i : Int} (h : ¬ Unwritable i) :
    integerText i = pure (toString i) :=
  if_pos (Nat.not_le.mp h)

theorem integerText_of_unwritable {i : Int} (h : Unwritable i) :
    integerText i = badValue (.digits i) :=
  if_neg (Nat.not_lt.mpr h)

theorem binary_divide_of_not_dvd (hb : b ≠ 0) (h : ¬ b ∣ a) : binary "/" (.int a) (.int b) =
    match Double.nearest? ((a < 0) != (b < 0)) a.natAbs b.natAbs with
      | some f => pure (.float f)
      | none => (do fail (.infiniteQuotient (← integerText a) (← integerText b))) := by
  have hquotient : (Number.int a).div? (.int b) =
      (Double.nearest? ((a < 0) != (b < 0)) a.natAbs b.natAbs).map .float :=
    if_neg fun hmod => h (Int.dvd_of_fmod_eq_zero (beq_iff_eq.mp hmod))
  show numeric "/" (.int a) (.int b) = _
  simp only [numeric, Number.isZero_int hb, hquotient]
  cases Double.nearest? ((a < 0) != (b < 0)) a.natAbs b.natAbs <;> rfl

theorem leads_modulo (hb : b ≠ 0) :
    Leads (binary "%" (.int a) (.int b)) st (.int (a.fmod b)) st := by
  have hmodulo : binary "%" (.int a) (.int b) = pure (.int (a.fmod b)) := by
    show numeric "%" (.int a) (.int b) = _
    simp only [numeric, Number.isZero_int hb]
    rfl
  rw [hmodulo]
  exact .pure _ st

/-- The error of a quotient that would not be finite, or the escape for an integer that it cannot name. -/
theorem result_infiniteQuotient (a b : Int) (st : Store) :
    let run : Eval Value := do fail (.infiniteQuotient (← integerText a) (← integerText b))
    run.result st = .error (.error (.infiniteQuotient (toString a) (toString b)) none) ∨
      ∃ i ∈ [a, b], Unwritable i ∧ run.result st = .error (.escape (@Escape.badValue (.digits i))) := by
  intro run
  by_cases ha : Unwritable a
  · refine .inr ⟨a, by simp, ha, ?_⟩
    simp only [run, integerText_of_unwritable ha]
    rfl
  by_cases hb : Unwritable b
  · refine .inr ⟨b, by simp, hb, ?_⟩
    simp only [run, integerText_of_not_unwritable ha, integerText_of_unwritable hb]
    rfl
  · refine .inl ?_
    simp only [run, integerText_of_not_unwritable ha, integerText_of_not_unwritable hb]
    rfl

theorem result_divide_of_unwritable (hb : b ≠ 0) (h : ¬ b ∣ a)
    (hinfinite : Double.nearest? ((a < 0) != (b < 0)) a.natAbs b.natAbs = none)
    (ha : Unwritable a) : (binary "/" (.int a) (.int b)).result st =
      .error (.escape (@Escape.badValue (.digits a))) := by
  simp only [binary_divide_of_not_dvd hb h, hinfinite, integerText_of_unwritable ha]
  rfl

/-- A quotient of integers is an integer if and only if the division comes out even. -/
theorem leads_divide_int_iff (hb : b ≠ 0) {q : Int} :
    Leads (binary "/" (.int a) (.int b)) st (.int q) st ↔ q * b = a := by
  constructor
  · intro hq
    by_cases hdvd : b ∣ a
    · rw [binary_divide_of_dvd hb hdvd] at hq
      obtain rfl := Value.int.inj (Except.ok.inj hq.result)
      exact Int.fdiv_mul_cancel hdvd
    · have hresult := hq.result
      rw [binary_divide_of_not_dvd hb hdvd] at hresult
      split at hresult
      · cases hresult
      · rcases result_infiniteQuotient a b st with hfail | ⟨i, -, -, hfail⟩
        all_goals
          rw [hfail] at hresult
          cases hresult
  · rintro rfl
    rw [binary_divide_of_dvd hb (Int.dvd_mul_left q b), Int.mul_fdiv_cancel q hb]
    exact .pure _ st

/-- An operator that evaluates both of its operands, in an expression. -/
theorem result_expr_binary {host : Host} {ev : Evaluator} {scope : Scope} {l r : Expr} {op : Word}
    {v w : Value} {st₁ st₂ : Store} (hop : op.text ≠ "and" ∧ op.text ≠ "or")
    (hl : Leads (ev.expr l scope) st v st₁) (hr : Leads (ev.expr r scope) st₁ w st₂) :
    (Eval.expr host ev (.binary l op r) scope).result st =
      ((binary op.text v w).result st₂).mapError (Fault.locate (Expr.binary l op r).pos?) := by
  have hinner : (exprInner host ev (.binary l op r) scope).result st =
      (binary op.text v w).result st₂ := by
    rw [exprInner, operation, result_bind_ok hl.result, hl.after, if_neg (by simpa using hop.1),
      if_neg (by simpa using hop.2), result_bind_ok hr.result, hr.after]
  rw [Eval.expr, result_tryCatch_throw, hinner]

/-- Integers of any size are added, subtracted and multiplied exactly. The quotient is an integer if and
only if the division comes out even, and then exact; else it is a double, or an error if that would not
be finite, which escapes if it cannot name the integers. The remainder has the sign of the divisor and
is nearer to zero, and without it the division comes out even. There is neither for zero. So it is in
expressions, where an error gets its place. -/
theorem integer_arithmetic (a b : Int) (st : Store) :
    let apply (op : String) := binary op (.int a) (.int b)
    Leads (apply "+") st (.int (a + b)) st ∧
    Leads (apply "-") st (.int (a - b)) st ∧
    Leads (apply "*") st (.int (a * b)) st ∧
    (b ≠ 0 →
      ((∃ q, Leads (apply "/") st (.int q) st) ↔ b ∣ a) ∧
      (∀ q, Leads (apply "/") st (.int q) st → q * b = a) ∧
      (¬ b ∣ a → (∃ f, Leads (apply "/") st (.float f) st) ∨
        (apply "/").result st = .error (.error (.infiniteQuotient (toString a) (toString b)) none) ∨
        ∃ i ∈ [a, b], Unwritable i ∧
          (apply "/").result st = .error (.escape (@Escape.badValue (.digits i)))) ∧
      ∃ r k, Leads (apply "%") st (.int r) st ∧ (r = 0 ∨ r.sign = b.sign) ∧ |r| < |b| ∧
        Leads (do binary "/" (← binary "-" (.int a) (.int r)) (.int b)) st (.int k) st ∧
        k * b + r = a) ∧
    (b = 0 → (apply "/").result st = .error (.error .divisionByZero none) ∧
      (apply "%").result st = .error (.error .moduloByZero none)) ∧
    (∀ cause ∈ [Cause.divisionByZero, .moduloByZero, .infiniteQuotient (toString a) (toString b)],
      cause.kind = .runtime) ∧
    ∀ host ev scope l r (op : Word) st₁ st₂, op.text ∈ ["+", "-", "*", "/", "%"] →
      Leads (ev.expr l scope) st (.int a) st₁ → Leads (ev.expr r scope) st₁ (.int b) st₂ →
      (Eval.expr host ev (.binary l op r) scope).result st =
        ((apply op.text).result st₂).mapError (Fault.locate (Expr.binary l op r).pos?) := by
  intro apply
  refine ⟨⟨rfl, rfl⟩, ⟨rfl, rfl⟩, ⟨rfl, rfl⟩, fun hb => ⟨?even, ?exact, ?uneven, ?remainder⟩, ?zero,
    ?kinds, ?expressions⟩
  case even => simp only [apply, leads_divide_int_iff hb, Int.dvd_def, mul_comm b, eq_comm]
  case exact => exact fun q => (leads_divide_int_iff hb).mp
  case uneven =>
    intro hdvd
    simp only [apply, binary_divide_of_not_dvd hb hdvd]
    cases Double.nearest? ((a < 0) != (b < 0)) a.natAbs b.natAbs with
    | some f => exact .inl ⟨f, .pure _ st⟩
    | none => exact .inr (result_infiniteQuotient a b st)
  case remainder =>
    have hsplit : a.fdiv b * b + a.fmod b = a := Int.fdiv_mul_add_fmod a b
    have hdifference : binary "-" (.int a) (.int (a.fmod b)) = pure (.int (a - a.fmod b)) := rfl
    refine ⟨a.fmod b, a.fdiv b, leads_modulo hb, Number.fmod_eq_zero_or_sign_eq hb,
      Number.abs_fmod_lt hb, ?_, hsplit⟩
    rw [hdifference, pure_bind]
    exact (leads_divide_int_iff hb).mpr (by omega)
  case zero =>
    rintro rfl
    exact ⟨rfl, rfl⟩
  case kinds => simp [Cause.kind]
  case expressions =>
    intro host ev scope l r op st₁ st₂ hop hl hr
    have hnames : ∀ name ∈ ["+", "-", "*", "/", "%"], name ≠ "and" ∧ name ≠ "or" := by decide
    exact result_expr_binary (hnames _ hop) hl hr

/-- A huge integer by a negative one, and the expression `5 / 0`. -/
theorem integer_arithmetic_huge_by_negative :
    let a : Int := 1000000000000000000000000000000
    let b : Int := -3
    b ≠ 0 ∧ ¬ b ∣ a ∧
    ((∃ f, Leads (binary "/" (.int a) (.int b)) .initial (.float f) .initial) ∨
      (binary "/" (.int a) (.int b)).result .initial =
        .error (.error (.infiniteQuotient (toString a) (toString b)) none)) ∧
    (∃ r k, Leads (binary "%" (.int a) (.int b)) .initial (.int r) .initial ∧ |r| < |b| ∧
      k * b + r = a) ∧
    (Eval.expr Host.none (Evaluator.within Host.none 2)
      (.binary (.int ⟨"5", ⟨2, 4⟩⟩) ⟨"/", ⟨2, 6⟩⟩ (.int ⟨"0", ⟨2, 8⟩⟩)) default).result .initial =
        .error (.error .divisionByZero (some ⟨2, 4⟩)) := by
  intro a b
  have hb : b ≠ 0 := by decide
  have hdvd : ¬ b ∣ a := by decide
  obtain ⟨-, -, -, hnonzero, -⟩ := integer_arithmetic a b .initial
  obtain ⟨-, -, huneven, r, k, hr, -, hlt, -, hk⟩ := hnonzero hb
  obtain ⟨-, -, -, -, hzero, -, hexpr⟩ := integer_arithmetic 5 0 .initial
  have hwritable : ∀ i ∈ [a, b], i.natAbs < Nat.pow 10 maxDigits := by decide +kernel
  have hquotient := or_assoc.mpr (huneven hdvd) |>.resolve_right fun ⟨i, hi, hunwritable, _⟩ =>
    Nat.not_le.mpr (hwritable i hi) hunwritable
  refine ⟨hb, hdvd, hquotient, ⟨r, k, hr, hlt, hk⟩, ?_⟩
  rw [hexpr Host.none (Evaluator.within Host.none 2) default _ _ _ .initial .initial (by decide)
    ⟨rfl, rfl⟩ ⟨rfl, rfl⟩, (hzero rfl).1]
  rfl

/-- The error of a huge quotient that is not finite would name an integer of more digits than the host
writes, and escapes. -/
theorem huge_quotient_escapes :
    let a : Int := 10 ^ 5000
    ¬ 3 ∣ a ∧ (binary "/" (.int a) (.int 3)).result .initial =
      .error (.escape (@Escape.badValue (.digits a))) := by
  intro a
  have hdvd : ¬ 3 ∣ a := by decide +kernel
  have hinfinite :
      Double.nearest? ((a < 0) != ((3 : Int) < 0)) a.natAbs (3 : Int).natAbs = none :=
    Double.nearest?_eq_none (by decide +kernel)
  have hunwritable : Nat.pow 10 maxDigits ≤ a.natAbs := by decide +kernel
  exact ⟨hdvd, result_divide_of_unwritable (by decide) hdvd hinfinite hunwritable⟩

end Eval
end ChatTemplate
