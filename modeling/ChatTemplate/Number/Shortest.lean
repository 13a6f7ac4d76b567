import ChatTemplate.Number.Double

/-!
# The shortest decimal of a double

Of the decimals that are nearer to a double than to any other, those with the fewest digits, and of
these the nearest one. A number halfway to a neighbour counts as nearer to the one with an even
mantissa.
-/

namespace ChatTemplate.Double

/-- The numbers between `lower / den` and `upper / den`, ends included or not. -/
structure Interval where
  lower : Nat
  upper : Nat
  den : Nat
  closed : Bool

def Interval.contains (i : Interval) (num den : Nat) : Bool :=
  if i.closed then i.lower * den ≤ num * i.den && num * i.den ≤ i.upper * den
  else i.lower * den < num * i.den && num * i.den < i.upper * den

/-- The numbers that are rounded to `mantissa * 2 ^ exponent`. Below a power of two the doubles are
twice as dense. -/
def roundedTo (mantissa : Nat) (exponent : Int) : Interval :=
  let scale := Nat.pow 2 exponent.toNat
  let below := if mantissa == Nat.pow 2 52 && minExponent < exponent then 1 else 2
  { lower := (4 * mantissa - below) * scale
    upper := (4 * mantissa + 2) * scale
    den := 4 * Nat.pow 2 (-exponent).toNat
    closed := mantissa % 2 == 0 }

/-- The number of places left of the point of `num / den`: `e` with `10 ^ (e - 1) ≤ num / den` and
`num / den < 10 ^ e`. -/
def places (num den : Nat) : Int :=
  if den ≤ num then (Nat.toDigits 10 (num / den)).length else below 400 0
where
  below : Nat → Nat → Int
    | 0, zeros => -zeros
    | n + 1, zeros => if den ≤ num * Nat.pow 10 (zeros + 1) then -zeros else below n (zeros + 1)

/-- The multiple of `10 ^ exponent` next to `num / den` that the interval holds, if one does. -/
def onGrid? (i : Interval) (num den : Nat) (exponent : Int) : Option Nat :=
  let up := Nat.pow 10 exponent.toNat
  let down := Nat.pow 10 (-exponent).toNat
  let n := num * down
  let d := den * up
  let low := n / d
  let hit (x : Nat) := i.contains (x * up) down
  match hit low, hit (low + 1) with
  | true, true =>
    let rest := 2 * (n % d)
    if rest < d then some low
    else if d < rest then some (low + 1)
    else some (if low % 2 == 0 then low else low + 1)
  | true, false => some low
  | false, true => some (low + 1)
  | false, false => none

/-- Digits and exponent of the shortest decimal: the first grid that has one, from coarse to
fine. -/
def shortest (mantissa : Nat) (exponent : Int) : Nat × Int :=
  let num := mantissa * Nat.pow 2 exponent.toNat
  let den := Nat.pow 2 (-exponent).toNat
  let i := roundedTo mantissa exponent
  let top := places num den
  let grids := (List.range 17).map fun k : Nat => top - 1 - (k : Int)
  (grids.findSome? fun e => (onGrid? i num den e).map (·, e)).getD (num / den, 0)

/-- Where the positional notation of a decimal ends. -/
def leastExponent : Int := -4

def greatestExponent : Int := 16

def zeros (n : Nat) : List Char := List.replicate n '0'

/-- A decimal with at least one place right of the point, or in scientific notation where the
exponent is below `leastExponent` or not below `greatestExponent`. -/
def decimalText (digits : Nat) (exponent : Int) : List Char :=
  let all := Nat.toDigits 10 digits
  let ds := (all.reverse.dropWhile (· == '0')).reverse
  let point := exponent + all.length
  if leastExponent < point && point ≤ greatestExponent then
    if point ≤ 0 then '0' :: '.' :: zeros (-point).toNat ++ ds
    else
      let p := point.toNat
      let fraction := ds.drop p
      ds.take p ++ zeros (p - ds.length) ++ '.' :: (if fraction.isEmpty then ['0'] else fraction)
  else
    let e := point - 1
    let es := Nat.toDigits 10 e.natAbs
    let tail := ds.drop 1
    ds.take 1 ++ (if tail.isEmpty then [] else '.' :: tail) ++
      'e' :: (if e < 0 then '-' else '+') :: (zeros (2 - es.length) ++ es)

/-- The texts of the numbers that have no digits. -/
structure SpecialTexts where
  nan : String
  infinity : String
  negativeInfinity : String

/-- The text of a double. -/
def text (special : SpecialTexts) (f : Float) : String :=
  match ofFloat f with
  | .nan => special.nan
  | .infinite negative => if negative then special.negativeInfinity else special.infinity
  | .finite negative mantissa exponent =>
    let body :=
      if mantissa == 0 then ['0', '.', '0']
      else
        let (digits, exponent) := shortest mantissa exponent
        decimalText digits exponent
    String.ofList (if negative then '-' :: body else body)

/-- The text of a double in printed templates. -/
def plainText (f : Float) : String := text ⟨"nan", "inf", "-inf"⟩ f

end ChatTemplate.Double
