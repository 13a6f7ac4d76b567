import ChatTemplate.Text.Blank

/-! # Splitting, joining and replacing -/

namespace ChatTemplate.Text
variable {α : Type} [BEq α]

/-- What stands before and after the first occurrence of `sep`. -/
def cut? (sep : List α) : List α → Option (List α × List α)
  | [] => none
  | x :: xs =>
    if sep.isPrefixOf (x :: xs) then some ([], (x :: xs).drop sep.length)
    else (cut? sep xs).map fun (before, after) => (x :: before, after)

/-- The pieces of a list between its first `n` occurrences of `sep`. -/
def splitOn (sep : List α) : Nat → List α → List (List α)
  | 0, xs => [xs]
  | n + 1, xs =>
    match cut? sep xs with
    | none => [xs]
    | some (before, after) => before :: splitOn sep n after

/-- The words of a text; after `n` of them, all that is left from the next one on. -/
def splitBlanks : Nat → List Codepoint → List (List Codepoint)
  | n, cs =>
    match cs.dropWhile isBlank with
    | [] => []
    | c :: cs =>
      match n with
      | 0 => [c :: cs]
      | n + 1 =>
        (c :: cs).takeWhile (!isBlank ·) :: splitBlanks n ((c :: cs).dropWhile (!isBlank ·))

/-- Replaces the first `n` occurrences of `old`, which is not empty; `skip` elements belong to the
last one. -/
def replaceWord (old new : List α) : Nat → Nat → List α → List α
  | _, _, [] => []
  | n, skip + 1, _ :: xs => replaceWord old new n skip xs
  | 0, 0, xs => xs
  | n + 1, 0, x :: xs =>
    if old.isPrefixOf (x :: xs) then new ++ replaceWord old new n (old.length - 1) xs
    else x :: replaceWord old new (n + 1) 0 xs

/-- Puts `new` before each of the first `n` elements, the end being one more. -/
def insertBetween (new : List α) : Nat → List α → List α
  | 0, xs => xs
  | _ + 1, [] => new
  | n + 1, x :: xs => new ++ x :: insertBetween new n xs

/-- Replaces the first `n` occurrences of `old`; an empty one occurs at every place. -/
def replace (old new : List α) (n : Nat) (xs : List α) : List α :=
  if old.isEmpty then insertBetween new n xs else replaceWord old new n 0 xs

/-- Does `word` occur in a list? -/
def occursIn (word : List α) : List α → Bool
  | [] => word.isEmpty
  | x :: xs => word.isPrefixOf (x :: xs) || occursIn word xs

end ChatTemplate.Text
