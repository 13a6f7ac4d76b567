import ChatTemplate.Sorting.Run

/-!
# Merging sorted runs

Two runs are merged from the end at which the shorter of them begins. As long as neither run wins
often in a row, one element of each is compared at a time; a run that does is searched for all that
it may give at once. How often is learnt on the way and kept for the next merge.
-/

namespace ChatTemplate.Sorting
variable {ε α : Type}

/-- What is left of two runs, and what is merged so far, the last element first. An element of
`second` is taken before an equal one of `first` never. -/
structure Merging (α : Type) where
  first : List α
  second : List α
  merged : List α

namespace Merging

/-- Takes `k` elements of the first run. -/
def takeFirst (m : Merging α) (k : Nat) : Merging α :=
  { m with first := m.first.drop k, merged := (m.first.take k).reverseAux m.merged }

/-- Takes `k` elements of the second run. -/
def takeSecond (m : Merging α) (k : Nat) : Merging α :=
  { m with second := m.second.drop k, merged := (m.second.take k).reverseAux m.merged }

/-- Nothing is left to compare: the last element of the first run is known to be the last of all. -/
def settled (m : Merging α) : Bool :=
  m.second.isEmpty || m.first.isEmpty || m.first.tail.isEmpty

/-- The merged run, once the merging is settled. -/
def finish (m : Merging α) : List α := m.merged.reverseAux (m.second ++ m.first)

end Merging

/-- One element at a time, with the run that won last and how often it did in a row, or many. -/
inductive Pace
  | steady (second : Bool) (wins : Nat)
  | galloping

/-- The pace after one more win of a run, where `limit` wins in a row make a merging gallop. -/
def Pace.afterWin (limit : Nat) (second : Bool) : Pace → Pace
  | .steady winner wins =>
    let wins := if winner == second then wins + 1 else 1
    if limit ≤ wins then .galloping else .steady second wins
  | .galloping => .galloping

/-- How many elements a search has to find for the merging to go on galloping. -/
def worthwhile : Nat := 7

section Rounds

/- Whether an element `y` of the second run comes before `x` of the first is `before y x`. -/
variable (mirrored : Bool) (before : α → α → Except ε Bool)

/-- Takes all of the first run that comes before the next of the second, and that one. -/
def gallopFirst (m : Merging α) : Except ε (Merging α × Nat) :=
  match m.second with
  | y :: _ =>
    if m.settled then .ok (m, 0)
    else do
      let k ← leading mirrored (fun x => return !(← before y x)) m.first
      let m := m.takeFirst k
      return (if m.settled then m else m.takeSecond 1, k)
  | [] => .ok (m, 0)

/-- Takes all of the second run that comes before the next of the first, and that one. -/
def gallopSecond (m : Merging α) : Except ε (Merging α × Nat) :=
  match m.first with
  | x :: _ =>
    if m.settled then .ok (m, 0)
    else do
      let k ← leading mirrored (before · x) m.second
      let m := m.takeSecond k
      return (if m.settled then m else m.takeFirst 1, k)
  | [] => .ok (m, 0)

/-- Searches both runs once, and tells how many elements each search found. -/
def gallopBoth (m : Merging α) : Except ε (Merging α × Nat × Nat) := do
  if mirrored then
    let (m, j) ← gallopSecond mirrored before m
    let (m, i) ← gallopFirst mirrored before m
    return (m, i, j)
  else
    let (m, i) ← gallopFirst mirrored before m
    let (m, j) ← gallopSecond mirrored before m
    return (m, i, j)

/-- Merges until nothing is left to compare: the merged run, and the wins in a row after which the
next merging gallops. Every round takes an element, so that `n` of them are enough for as many. -/
def mergeRounds : Nat → Pace → Nat → Merging α → Except ε (List α × Nat)
  | 0, _, limit, m => .ok (m.finish, limit)
  | n + 1, pace, limit, m =>
    if m.settled then .ok (m.finish, limit)
    else
      match pace, m.first, m.second with
      | .steady winner wins, x :: _, y :: _ => do
        let second ← before y x
        mergeRounds n (Pace.afterWin limit second (.steady winner wins)) limit
          (if second then m.takeSecond 1 else m.takeFirst 1)
      | _, _, _ => do
        let (m, i, j) ← gallopBoth mirrored before m
        if m.settled then return (m.finish, limit)
        else if worthwhile ≤ i || worthwhile ≤ j then
          mergeRounds n .galloping (max 1 (limit - 1)) m
        else mergeRounds n (.steady false 0) (limit + 1) m

/-- Merges two runs of which the second has the first element. -/
def mergeFront (limit : Nat) (first second : List α) : Except ε (List α × Nat) :=
  mergeRounds mirrored before (first.length + second.length) (.steady false 0) limit
    (Merging.takeSecond ⟨first, second, []⟩ 1)

end Rounds

/-- Sorting with the wins in a row that make the next merging gallop. -/
abbrev Sorter (ε α : Type) := StateT Nat (Except ε) α

variable (less : α → α → Except ε Bool)

/-- Merges two runs that overlap, the second of which has the first element and the first the last
one. From behind, the runs change their parts. -/
def mergeOverlap (a b : List α) : Sorter ε (List α) := fun limit =>
  if a.length ≤ b.length then mergeFront false less limit a b
  else do
    let (merged, limit) ← mergeFront true (fun x y => less y x) limit b.reverse a.reverse
    return (merged.reverse, limit)

/-- Merges two neighbouring runs. What stands at its place already, at both ends, is left alone. -/
def merge (a b : List α) : Sorter ε (List α) := do
  match b.head? with
  | none => return a
  | some y =>
    let k ← leading false (notAbove less · y) a
    match (a.drop k).getLast? with
    | none => return a ++ b
    | some x =>
      let j ← leading true (notAbove less x) b.reverse
      let inner := b.take (b.length - j)
      if inner.isEmpty then return a ++ b
      let merged ← mergeOverlap less (a.drop k) inner
      return a.take k ++ merged ++ b.drop (b.length - j)

end ChatTemplate.Sorting
