import ChatTemplate.Sorting.Search

/-!
# Sorted runs

The run at the front of a list, made longer by insertion where it is short.
-/

namespace ChatTemplate.Sorting
variable {ε α : Type} (less : α → α → Except ε Bool)

/-- Is `y` not less than `x`, so that `x` may stand before it? -/
def notAbove (x y : α) : Except ε Bool := return !(← less y x)

/-- Inserts `x` into a sorted list, behind all elements that it is not less than. -/
def insert (x : α) (xs : List α) : Except ε (List α) := do
  let k ← bisect false (ask (notAbove less · x) xs) 0 xs.length
  return xs.take k ++ x :: xs.drop k

/-- Inserts elements into a sorted list, one after the other. -/
def insertAll (sorted : List α) : List α → Except ε (List α)
  | [] => .ok sorted
  | x :: xs => do insertAll (← insert less x sorted) xs

/-- The elements at the front, each of which is less than the one before it if `down` holds, and
not less otherwise, and the rest. -/
def takeRun (down : Bool) (previous : α) : List α → Except ε (List α × List α)
  | [] => .ok ([], [])
  | x :: xs => do
    if (← less x previous) == down then
      let (run, rest) ← takeRun down x xs
      return (x :: run, rest)
    else return ([], x :: xs)

/-- The longest sorted front of a list, or falling front in reverse, and the rest. -/
def naturalRun : List α → Except ε (List α × List α)
  | x :: y :: zs => do
    let down ← less y x
    let (run, rest) ← takeRun less down y zs
    return (if down then (x :: y :: run).reverse else x :: y :: run, rest)
  | xs => .ok (xs, [])

/-- A sorted run of at least `least` elements, if there are as many, and the rest. -/
def nextRun (least : Nat) (xs : List α) : Except ε (List α × List α) := do
  let (run, rest) ← naturalRun less xs
  let missing := least - run.length
  return (← insertAll less run (rest.take missing), rest.drop missing)

end ChatTemplate.Sorting
