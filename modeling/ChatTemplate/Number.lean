import ChatTemplate.Number.Shortest

/-!
# Numbers

Integers of any size and doubles. Integers are added, subtracted and multiplied exactly; an
operation between the two kinds is one on doubles, for which the integer must not be too large.
-/

namespace ChatTemplate

inductive Number
  | int (i : Int)
  | float (f : Float)

namespace Number

def exact : Number → Double
  | .int i => Double.ofInt i
  | .float f => Double.ofFloat f

/-- The order of two numbers by their exact amounts. -/
def compare? (a b : Number) : Option Ordering := a.exact.compare? b.exact

def isZero : Number → Bool
  | .int i => i == 0
  | .float f => f == 0

/-- An operation on integers and on doubles, unless there is an integer that is too large to be a
double. -/
def combine (ints : Int → Int → Int) (floats : Float → Float → Float) :
    Number → Number → Except Int Number
  | .int a, .int b => .ok (.int (ints a b))
  | .float a, .float b => .ok (.float (floats a b))
  | .int a, .float b =>
    match Double.ofInt? a with
    | some x => .ok (.float (floats x b))
    | none => .error a
  | .float a, .int b =>
    match Double.ofInt? b with
    | some y => .ok (.float (floats a y))
    | none => .error b

/-- The remainder of two doubles, with the sign of the divisor `y`, which is not zero. -/
def floatMod (x y : Float) : Float :=
  match Double.ofFloat x, Double.ofFloat y with
  | .finite s m _, .infinite t =>
    if m == 0 then Double.ofBits t 0
    else if s == t then x
    else Double.infinity t
  | .finite s m e, .finite t n f =>
    let k := min e f
    let r := (m * Nat.pow 2 (e - k).toNat) % (n * Nat.pow 2 (f - k).toNat)
    if r == 0 then Double.ofBits t 0
    else
      let rest := Double.nearest s (r * Nat.pow 2 k.toNat) (Nat.pow 2 (-k).toNat)
      if s == t then rest else rest + y
  | _, _ => 0.0 / 0.0

def add : Number → Number → Except Int Number := combine (· + ·) (· + ·)

def sub : Number → Number → Except Int Number := combine (· - ·) (· - ·)

def mul : Number → Number → Except Int Number := combine (· * ·) (· * ·)

/-- The remainder, with the sign of the divisor, which is not zero. -/
def mod : Number → Number → Except Int Number := combine Int.fmod floatMod

def finite? (f : Float) : Option Number := if f.isFinite then some (.float f) else none

/-- The quotient, if it is finite; the divisor is not zero. One of integers is an integer where it
can be, and else the nearest double. -/
def div? : Number → Number → Option Number
  | .int a, .int b =>
    if a.fmod b == 0 then some (.int (a.fdiv b))
    else (Double.nearest? ((a < 0) != (b < 0)) a.natAbs b.natAbs).map .float
  | .int a, .float b => (Double.ofInt? a).bind fun a => finite? (a / b)
  | .float a, .int b => (Double.ofInt? b).bind fun b => finite? (a / b)
  | .float a, .float b => finite? (a / b)

end Number
end ChatTemplate
