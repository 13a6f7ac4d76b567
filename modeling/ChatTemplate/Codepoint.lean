/-!
# Code points

What strings are made of: characters, and surrogates, which are no characters but which an escape
may spell.
-/

namespace ChatTemplate

/-- A number below `0x110000`. Those from `0xD800` to `0xDFFF` are the surrogates. -/
structure Codepoint where
  toNat : Nat
  isLt : toNat < 0x110000
deriving DecidableEq, Repr

namespace Codepoint

def ofNat (n : Nat) : Codepoint := if h : n < 0x110000 then ⟨n, h⟩ else ⟨0, by decide⟩

instance : Inhabited Codepoint := ⟨ofNat 0⟩

theorem toNat_char_lt (c : Char) : c.toNat < 0x110000 := by
  have h : c.toNat < 0xD800 ∨ 0xDFFF < c.toNat ∧ c.toNat < 0x110000 := c.valid
  omega

def ofChar (c : Char) : Codepoint := ⟨c.toNat, toNat_char_lt c⟩

instance : Coe Char Codepoint := ⟨ofChar⟩

/-- The character that a code point is, unless it is a surrogate. -/
def toChar? (x : Codepoint) : Option Char :=
  if x.toNat.isValidChar then some (Char.ofNat x.toNat) else none

@[simp] theorem toNat_ofChar (c : Char) : (ofChar c).toNat = c.toNat := rfl

@[simp] theorem toChar?_ofChar (c : Char) : (ofChar c).toChar? = some c := by
  have h : c.toNat.isValidChar := c.valid
  simp [toChar?, h]

theorem ofChar_injective {c d : Char} (h : ofChar c = ofChar d) : c = d := by
  simpa using congrArg toChar? h

instance : LT Codepoint := ⟨fun x y => x.toNat < y.toNat⟩

instance : DecidableLT Codepoint := fun x y => inferInstanceAs (Decidable (x.toNat < y.toNat))

end Codepoint
end ChatTemplate
