import ChatTemplate.Codepoint

/-!
# Strings of code points

A `Text` is what a string value holds. Every `String` is one; the others have a surrogate in them.
-/

namespace ChatTemplate

structure Text where
  points : Array Codepoint
deriving DecidableEq, Repr

namespace Text

def toList (t : Text) : List Codepoint := t.points.toList

def ofList (xs : List Codepoint) : Text := ⟨xs.toArray⟩

instance : Inhabited Text := ⟨ofList []⟩

def ofString (s : String) : Text := ofList (s.toList.map .ofChar)

instance : Coe String Text := ⟨ofString⟩

/-- The characters of a text, if no surrogate is in it. -/
def chars? (t : Text) : Option (List Char) := t.toList.mapM Codepoint.toChar?

/-- The text as a plain string, if no surrogate is in it. -/
def toString? (t : Text) : Option String := t.chars?.map String.ofList

/-- The text as a plain string, with replacement characters for its surrogates. -/
def display (t : Text) : String := String.ofList (t.toList.map fun x => x.toChar?.getD '\uFFFD')

def length (t : Text) : Nat := t.points.size

def isEmpty (t : Text) : Bool := t.points.isEmpty

instance : Append Text := ⟨fun t u => ⟨t.points ++ u.points⟩⟩

/-- Texts are ordered by the first code point in which they differ. -/
instance : LT Text := ⟨fun t u => t.toList < u.toList⟩

instance : DecidableLT Text := fun t u => inferInstanceAs (Decidable (t.toList < u.toList))

/-- The texts of a list with `sep` between them. -/
def intercalate (sep : Text) (ts : List Text) : Text :=
  ofList (sep.toList.intercalate (ts.map toList))

@[simp] theorem toList_ofList (xs : List Codepoint) : (ofList xs).toList = xs := rfl

@[simp] theorem ofList_toList (t : Text) : ofList t.toList = t := rfl

@[simp] theorem toList_append (t u : Text) : (t ++ u).toList = t.toList ++ u.toList :=
  Array.toList_append

@[simp] theorem toList_ofString (s : String) : (ofString s).toList = s.toList.map .ofChar := rfl

theorem ofString_injective {s t : String} (h : ofString s = ofString t) : s = t :=
  String.toList_injective <|
    (List.map_inj_right fun _ _ => Codepoint.ofChar_injective).mp (congrArg toList h)

theorem toList_injective {t u : Text} (h : t.toList = u.toList) : t = u := by
  rw [← ofList_toList t, h, ofList_toList]

end Text
end ChatTemplate
