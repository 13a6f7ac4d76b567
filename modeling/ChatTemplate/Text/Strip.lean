/-! # Stripping elements off the ends -/

namespace ChatTemplate.Text

variable {α : Type}

def stripLeft (p : α → Bool) (xs : List α) : List α := xs.dropWhile p

def stripRight (p : α → Bool) (xs : List α) : List α := (xs.reverse.dropWhile p).reverse

def strip (p : α → Bool) (xs : List α) : List α := stripRight p (stripLeft p xs)

end ChatTemplate.Text
