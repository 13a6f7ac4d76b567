/-!
# Slices

The places that `start:stop:step` picks from a sequence. A bound below zero counts from the end; a
missing one stands for the end from which, or up to which, the step leads.
-/

namespace ChatTemplate.Slice

/-- A bound of a slice of a sequence of length `n`, held between `low` and `high`. -/
def clamp (n low high bound : Int) : Int :=
  if bound < 0 then max low (bound + n) else min high bound

/-- How many places lie from `start` up to but not including `stop`, `step` apart. -/
def count (start stop step : Int) : Nat :=
  if 0 < step then ((stop - start + step - 1) / step).toNat
  else ((start - stop - step - 1) / -step).toNat

/-- The places from `start` up to but not including `stop`, `step` apart. -/
def progression (start stop step : Int) : List Int :=
  (List.range (count start stop step)).map fun i : Nat => start + step * i

/-- The places in a sequence of length `n`; the step is not zero. -/
def places (n : Nat) (start stop : Option Int) (step : Int) : List Int :=
  let low : Int := if 0 < step then 0 else -1
  let high : Int := if 0 < step then n else n - 1
  let first := if 0 < step then low else high
  let last := if 0 < step then high else low
  progression ((start.map (clamp n low high)).getD first) ((stop.map (clamp n low high)).getD last)
    step

/-- What a sequence holds at the places of a slice. -/
def pick {α : Type} (xs : List α) (start stop : Option Int) (step : Int) : List α :=
  let a := xs.toArray
  (places a.size start stop step).filterMap fun i => a[i.toNat]?

end ChatTemplate.Slice
