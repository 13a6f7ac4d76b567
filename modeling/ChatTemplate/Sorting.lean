import ChatTemplate.Sorting.Merge

/-!
# Sorting where comparing may fail

A stable sort that looks for the runs a list already has and merges neighbouring ones. A boundary
between two runs has a power, the greater the less it is worth to merge them early; which elements
are compared, and in which order, decides what error is met first.
-/

namespace ChatTemplate.Sorting
variable {ε α : Type} (less : α → α → Except ε Bool)

/-- Lists shorter than this are one run. -/
def shortest : Nat := 64

/-- The least length of a run, so that the runs of a list of length `n` are about a power of two in
number; `carry` is one if a half was cut off. -/
def leastRun (n carry : Nat) : Nat :=
  if n < shortest then n + carry else leastRun (n / 2) (max carry (n % 2))
termination_by n
decreasing_by simp only [shortest] at *; omega

/-- The power of the boundary between two runs of the lengths `a` and `b`, the first of which begins
at `start` in a list of length `n`: the first binary place in which the middles of the runs, as
parts of the list, differ. -/
def power (n start a b : Nat) : Nat :=
  let x := 2 * start + a
  let y := x + a + b
  ((List.range (n.log2 + 1)).find? fun k => x * Nat.pow 2 k / n != y * Nat.pow 2 k / n).getD 0 + 1

/-- Runs that wait for their merge, the last one first, each with the power of the boundary after
it. -/
abbrev Pending (α : Type) := List (List α × Nat)

/-- Merges the last run with those before it whose boundaries have a greater power. -/
def mergeAbove (p : Nat) : Pending α → List α → Sorter ε (Pending α × List α)
  | [], last => return ([], last)
  | (run, q) :: rest, last => do
    if p < q then mergeAbove p rest (← merge less run last)
    else return ((run, q) :: rest, last)

/-- Merges all runs, the last ones first; of three, the two shorter neighbours. -/
def mergeAll : Pending α → List α → Sorter ε (List α)
  | [], last => return last
  | [(run, _)], last => merge less run last
  | (run, _) :: (before, q) :: rest, last => do
    if before.length < last.length then mergeAll ((← merge less before run, q) :: rest) last
    else mergeAll ((before, q) :: rest) (← merge less run last)
termination_by pending => pending.length

/-- Sorts what is left of a list of length `n`, where `last` is the last run so far and begins at
`start`. Each run takes an element, so that `m` of them are enough for as many. -/
def sortRuns (n : Nat) : Nat → Pending α → Nat → List α → List α → Sorter ε (List α)
  | 0, pending, _, last, _ | _, pending, _, last, [] => mergeAll less pending last
  | m + 1, pending, start, last, x :: xs => do
    let (run, rest) ← nextRun less (leastRun n 0) (x :: xs)
    let p := power n start last.length run.length
    let next := start + last.length
    let (pending, last) ← mergeAbove less p pending last
    sortRuns n m ((last, p) :: pending) next run rest

def sort (xs : List α) : Except ε (List α) := do
  let (run, rest) ← nextRun less (leastRun xs.length 0) xs
  (sortRuns less xs.length rest.length [] 0 run rest).run' worthwhile

end ChatTemplate.Sorting
