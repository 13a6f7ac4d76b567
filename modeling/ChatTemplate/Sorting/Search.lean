/-!
# Searching where asking may fail

Searches for the number of elements at the front of a list for which a question is answered with
yes. Which elements are asked, and in which order, decides what error is met first, and what is
found where the yeses are not all at the front.
-/

namespace ChatTemplate.Sorting
variable {ε α : Type}

/-- The middle of `width` places; of an even number, the one on the right, or the one on the left if
`mirrored` holds. -/
def middle (mirrored : Bool) (width : Nat) : Nat :=
  if mirrored then (width - 1) / 2 else width / 2

theorem middle_lt (mirrored : Bool) {width : Nat} (h : width ≠ 0) :
    middle mirrored width < width := by
  unfold middle
  split <;> omega

/-- Halves the `width` places from `low` on until none is left. -/
def bisect (mirrored : Bool) (p : Nat → Except ε Bool) (low width : Nat) : Except ε Nat :=
  if h : width = 0 then .ok low
  else do
    let half := middle mirrored width
    if ← p (low + half) then bisect mirrored p (low + half + 1) (width - half - 1)
    else bisect mirrored p low half
termination_by width
decreasing_by
  · omega
  · exact middle_lt mirrored h

/-- Asks at wider and wider steps, below `n`, until the answer is no: the last place with a yes and
the end of the places that are left to ask. -/
def widen (p : Nat → Except ε Bool) (n low high : Nat) : Except ε (Nat × Nat) :=
  if high < n then do
    if ← p high then widen p n high (2 * high + 1) else return (low, high)
  else return (low, n)
termination_by n - high

/-- Searches `n` places, close to the front first. -/
def gallop (mirrored : Bool) (p : Nat → Except ε Bool) (n : Nat) : Except ε Nat := do
  if ← p 0 then
    let (low, high) ← widen p n 0 1
    bisect mirrored p (low + 1) (high - low - 1)
  else return 0

/-- The answer of `p` for the element at a place. -/
def ask (p : α → Except ε Bool) (xs : List α) (i : Nat) : Except ε Bool :=
  match xs[i]? with
  | some x => p x
  | none => .ok false

/-- The number of elements at the front for which `p` holds, close to the front first. -/
def leading (mirrored : Bool) (p : α → Except ε Bool) (xs : List α) : Except ε Nat :=
  gallop mirrored (ask p xs) xs.length

end ChatTemplate.Sorting
