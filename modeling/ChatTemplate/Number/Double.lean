/-!
# Doubles as exact numbers

A finite double is `± mantissa * 2 ^ exponent`; this module goes from doubles to such numbers and,
by rounding to the nearest and to the even one of two, back.
-/

namespace ChatTemplate

inductive Double
  | nan
  | infinite (negative : Bool)
  | finite (negative : Bool) (mantissa : Nat) (exponent : Int)
deriving DecidableEq, Repr

namespace Double

/-- The exponent of the smallest positive double. -/
def minExponent : Int := -1074

def ofFloat (f : Float) : Double :=
  let bits := f.toBits.toNat
  let negative := Nat.pow 2 63 ≤ bits
  let biased := bits / Nat.pow 2 52 % Nat.pow 2 11
  let fraction := bits % Nat.pow 2 52
  if biased == 2047 then if fraction == 0 then .infinite negative else .nan
  else if biased == 0 then .finite negative fraction minExponent
  else .finite negative (Nat.pow 2 52 + fraction) (minExponent + (biased - 1 : Nat))

/-- An integer as a number of the same kind. -/
def ofInt (i : Int) : Double := .finite (i < 0) i.natAbs 0

def signed (negative : Bool) (n : Nat) : Int := if negative then -n else n

/-- The order of two numbers; with `nan` there is none. -/
def compare? : Double → Double → Option Ordering
  | .nan, _ | _, .nan => none
  | .infinite s, .infinite t => some (compare (signed s 1) (signed t 1))
  | .infinite s, .finite .. => some (if s then .lt else .gt)
  | .finite .., .infinite t => some (if t then .gt else .lt)
  | .finite s m e, .finite t n f =>
    let k := min e f
    some (compare (signed s (m * Nat.pow 2 (e - k).toNat))
      (signed t (n * Nat.pow 2 (f - k).toNat)))

/-- The greatest integer that is not above a finite number. -/
def floor (negative : Bool) (mantissa : Nat) (exponent : Int) : Int :=
  Int.fdiv (signed negative (mantissa * Nat.pow 2 exponent.toNat)) (Nat.pow 2 (-exponent).toNat)

/-! ### Rounding -/

/-- The quotient rounded to the nearest integer, a half to the even one. -/
def roundDiv (num den : Nat) : Nat :=
  let q := num / den
  match compare (2 * (num % den)) den with
  | .lt => q
  | .gt => q + 1
  | .eq => if q % 2 == 0 then q else q + 1

/-- The exponent `e` with `2 ^ e ≤ num / den < 2 ^ (e + 1)`, for positive numbers. -/
def log2Quotient (num den : Nat) : Int :=
  let e : Int := num.log2 - den.log2
  if den * Nat.pow 2 e.toNat ≤ num * Nat.pow 2 (-e).toNat then e else e - 1

/-- The bits of the nearest double to `num / den`, as far as the exponent may grow at will. -/
def nearestBits (num den : Nat) : Nat :=
  if num == 0 then 0
  else
    let e := max minExponent (log2Quotient num den - 52)
    (e - minExponent).toNat * Nat.pow 2 52 +
      roundDiv (num * Nat.pow 2 (-e).toNat) (den * Nat.pow 2 e.toNat)

/-- The bits of positive infinity. -/
def infinityBits : Nat := 2047 * Nat.pow 2 52

def ofBits (negative : Bool) (bits : Nat) : Float :=
  Float.ofBits (UInt64.ofNat (if negative then Nat.pow 2 63 + bits else bits))

def infinity (negative : Bool) : Float := ofBits negative infinityBits

/-- The nearest double to `± num / den`, if it is finite. -/
def nearest? (negative : Bool) (num den : Nat) : Option Float :=
  let bits := nearestBits num den
  if bits < infinityBits then some (ofBits negative bits) else none

/-- The nearest double to `± num / den`. -/
def nearest (negative : Bool) (num den : Nat) : Float :=
  (nearest? negative num den).getD (infinity negative)

/-- The nearest double to an integer, if it is finite. -/
def ofInt? (i : Int) : Option Float := nearest? (i < 0) i.natAbs 1

/-- The nearest double to `± digits * 10 ^ exponent`. Beyond four hundred places the exponent alone
decides, as every double lies between. -/
def ofDecimal (negative : Bool) (digits : Nat) (exponent : Int) : Float :=
  let places := exponent + (Nat.toDigits 10 digits).length
  if digits == 0 || places < -400 then ofBits negative 0
  else if 400 < places then infinity negative
  else nearest negative (digits * Nat.pow 10 exponent.toNat) (Nat.pow 10 (-exponent).toNat)

end Double
end ChatTemplate
