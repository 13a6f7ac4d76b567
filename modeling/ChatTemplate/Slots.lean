/-!
# Slots

Names with values in the order in which the names were first given. Giving a name again keeps its
place and replaces its value. The names of variables are strings, those in objects any texts.
-/

namespace ChatTemplate

abbrev Slots (κ α : Type) := List (κ × α)

namespace Slots
variable {κ α : Type} [DecidableEq κ]

/-- Gives `name` the value `x`. -/
def put (name : κ) (x : α) : Slots κ α → Slots κ α
  | [] => [(name, x)]
  | (k, y) :: rest => if k = name then (k, x) :: rest else (k, y) :: put name x rest

def names (s : Slots κ α) : List κ := s.map Prod.fst

/-- Gives the names of a list, from left to right, on top of `s`. -/
def putAll (s : Slots κ α) (entries : List (κ × α)) : Slots κ α :=
  entries.foldl (fun s (name, x) => s.put name x) s

theorem lookup_put_self (s : Slots κ α) (name : κ) (x : α) :
    (s.put name x).lookup name = some x := by
  induction s with
  | nil => simp [put]
  | cons e rest ih =>
    obtain ⟨k, y⟩ := e
    by_cases h : k = name
    · simp [put, h]
    · simp [put, h, List.lookup_cons, beq_false_of_ne (Ne.symm h), ih]

theorem lookup_put_of_ne (s : Slots κ α) {name other : κ} (x : α) (h : other ≠ name) :
    (s.put name x).lookup other = s.lookup other := by
  induction s with
  | nil => simp [put, List.lookup_cons, beq_false_of_ne h]
  | cons e rest ih =>
    obtain ⟨k, y⟩ := e
    by_cases hk : k = name
    · simp [put, hk, List.lookup_cons, beq_false_of_ne h]
    · simp only [put, hk, if_false, List.lookup_cons]
      split <;> simp_all

end Slots
end ChatTemplate
