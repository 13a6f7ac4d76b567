import ChatTemplate.Number
import Mathlib.Algebra.Order.Field.Power
import Mathlib.Data.Rat.Cast.Order
import Mathlib.Order.WithBot

/-!
# The amounts of numbers

Every double but `nan` has an amount: a rational number, or one of the ends of the line of rational
numbers. Numbers are compared by their amounts (`Number.compare?_eq`), integers and doubles alike.
-/

namespace ChatTemplate

namespace Double

/-- The exact amount of a number. The infinities are the ends of the line, and that of `nan` is of no
account. -/
def amount : Double → WithBot (WithTop ℚ)
  | .nan => 0
  | .infinite negative => if negative then ⊥ else (⊤ : WithTop ℚ)
  | .finite negative mantissa exponent =>
    ((signed negative mantissa * 2 ^ exponent : ℚ) : WithTop ℚ)

/-- A finite number as a multiple of a smaller power of two. -/
theorem amount_finite_of_le (negative : Bool) (mantissa : Nat) {exponent k : Int}
    (h : k ≤ exponent) : (finite negative mantissa exponent).amount =
      ((signed negative (mantissa * Nat.pow 2 (exponent - k).toNat) * 2 ^ k : ℚ) : WithTop ℚ) := by
  have hpower : (2 : ℚ) ^ exponent = 2 ^ (exponent - k).toNat * 2 ^ k := by
    rw [← zpow_natCast, Int.toNat_of_nonneg (by omega), ← zpow_add₀ two_ne_zero, Int.sub_add_cancel]
  have hsigned (n : Nat) : (signed negative (mantissa * n) : ℚ) = signed negative mantissa * n := by
    cases negative <;> simp [signed]
  rw [amount, hsigned, hpower, mul_assoc]
  simp

theorem multiple_lt_multiple (k : Int) {i j : Int} (h : i < j) :
    (((i * 2 ^ k : ℚ) : WithTop ℚ) : WithBot (WithTop ℚ)) < ((j * 2 ^ k : ℚ) : WithTop ℚ) := by
  refine WithBot.coe_lt_coe.mpr (WithTop.coe_lt_coe.mpr ?_)
  exact mul_lt_mul_of_pos_right (Int.cast_lt.mpr h) (zpow_pos two_pos k)

theorem compare_map {α β : Type} [LinearOrder α] [LinearOrder β] {f : α → β} (hf : StrictMono f)
    (x y : α) : compare (f x) (f y) = compare x y := by
  rcases lt_trichotomy x y with h | rfl | h
  · rw [compare_lt_iff_lt.mpr h, compare_lt_iff_lt.mpr (hf h)]
  · rw [compare_eq_iff_eq.mpr rfl, compare_eq_iff_eq.mpr rfl]
  · rw [compare_gt_iff_gt.mpr h, compare_gt_iff_gt.mpr (hf h)]

/-- Comparing goes by the amounts. -/
theorem compare?_eq {a b : Double} (ha : a ≠ .nan) (hb : b ≠ .nan) :
    a.compare? b = some (compare a.amount b.amount) := by
  match a, b with
  | .infinite true, .infinite true => exact congrArg some (compare_eq_iff_eq.mpr rfl).symm
  | .infinite true, .infinite false =>
    exact congrArg some (compare_lt_iff_lt.mpr (WithBot.bot_lt_coe _)).symm
  | .infinite false, .infinite true =>
    exact congrArg some (compare_gt_iff_gt.mpr (WithBot.bot_lt_coe _)).symm
  | .infinite false, .infinite false => exact congrArg some (compare_eq_iff_eq.mpr rfl).symm
  | .infinite true, .finite .. =>
    exact congrArg some (compare_lt_iff_lt.mpr (WithBot.bot_lt_coe _)).symm
  | .infinite false, .finite .. =>
    exact congrArg some
      (compare_gt_iff_gt.mpr (WithBot.coe_lt_coe.mpr (WithTop.coe_lt_top _))).symm
  | .finite .., .infinite true =>
    exact congrArg some (compare_gt_iff_gt.mpr (WithBot.bot_lt_coe _)).symm
  | .finite .., .infinite false =>
    exact congrArg some
      (compare_lt_iff_lt.mpr (WithBot.coe_lt_coe.mpr (WithTop.coe_lt_top _))).symm
  | .finite s m e, .finite t n f =>
    have hmono : StrictMono fun i : ℤ =>
        (((i * 2 ^ min e f : ℚ) : WithTop ℚ) : WithBot (WithTop ℚ)) :=
      fun _ _ => multiple_lt_multiple (min e f)
    rw [amount_finite_of_le s m (min_le_left e f), amount_finite_of_le t n (min_le_right e f),
      compare_map hmono]
    rfl

theorem compare?_eq_some_lt {a b : Double} (ha : a ≠ .nan) (hb : b ≠ .nan) :
    a.compare? b = some .lt ↔ a.amount < b.amount := by
  rw [compare?_eq ha hb, Option.some_inj, compare_lt_iff_lt]

theorem compare?_eq_some_eq {a b : Double} :
    a.compare? b = some .eq ↔ a ≠ .nan ∧ b ≠ .nan ∧ a.amount = b.amount := by
  by_cases ha : a = .nan
  · subst ha
    simp [compare?]
  · by_cases hb : b = .nan
    · subst hb
      cases a <;> simp [compare?]
    · simp only [compare?_eq ha hb, Option.some_inj, compare_eq_iff_eq, ha, hb, ne_eq,
        not_false_eq_true, true_and]

end Double

namespace Number

/-- The exact amount of a number. -/
def amount (n : Number) : WithBot (WithTop ℚ) := n.exact.amount

/-- The amount of an integer is the integer. -/
@[simp] theorem amount_int (i : Int) : (int i).amount = ((i : ℚ) : WithTop ℚ) := by
  have hsigned : Double.signed (i < 0) i.natAbs = i := by
    by_cases h : i < 0
    · simp only [Double.signed, h, decide_true, if_true]
      omega
    · simp only [Double.signed, h, decide_false, Bool.false_eq_true, if_false]
      omega
  simp [amount, exact, Double.ofInt, Double.amount, hsigned]

end Number
end ChatTemplate
