import ChatTemplate.Proofs.Eval.Steps
import Mathlib.Data.List.TakeWhile

/-!
# Title case

`Text.IsWord` says where the words of a text are: the longest runs of characters that are not blank.
In title case a text is in lower case, but for the first character of each word (`Eval.title_case`).
It comes to the same to look for the starts of words from left to right and to take the blank before a
word along with its start (`Text.replaceStarts`). No start is missed, as what is taken for one start
ends with a character that is not blank, so that the next start has its own blank.
-/

namespace ChatTemplate
namespace Text
variable {cs : List Codepoint} {c : Codepoint} {i : Nat} {start : Bool}

/-! ### Words -/

/-- The characters from place `i` up to place `j` are a word: none of them is blank, and there is no
other such character right before or behind them. -/
structure IsWord (cs : List Codepoint) (i j : Nat) : Prop where
  lt : i < j
  le_length : j ≤ cs.length
  solid : ∀ k c, i ≤ k → k < j → cs[k]? = some c → ¬ isBlank c
  before : ∀ k c, k + 1 = i → cs[k]? = some c → isBlank c
  behind : ∀ c, cs[j]? = some c → isBlank c

/-- From any place on, the characters that are not blank end somewhere. -/
theorem exists_end (cs : List Codepoint) (hi : i ≤ cs.length) :
    ∃ j, i ≤ j ∧ j ≤ cs.length ∧ (∀ k c, i ≤ k → k < j → cs[k]? = some c → ¬ isBlank c) ∧
      ∀ c, cs[j]? = some c → isBlank c := by
  -- on the places that are left
  induction hleft : cs.length - i generalizing i with
  | zero =>
    refine ⟨i, Nat.le_refl i, hi, fun k _ hik hki => absurd hik (Nat.not_le.mpr hki), fun c hc => ?_⟩
    have := (List.getElem?_eq_some_iff.mp hc).1
    omega
  | succ left ih =>
    have hlt : i < cs.length := by omega
    by_cases hblank : isBlank cs[i]
    · refine ⟨i, Nat.le_refl i, hi, fun k _ hik hki => absurd hik (Nat.not_le.mpr hki), fun c hc => ?_⟩
      rwa [← (List.getElem?_eq_some_iff.mp hc).2]
    · obtain ⟨j, hij, hj, hsolid, hbehind⟩ := ih (i := i + 1) hlt (by omega)
      refine ⟨j, by omega, hj, fun k c hik hkj hc => ?_, hbehind⟩
      by_cases hk : k = i
      · subst hk
        rwa [← (List.getElem?_eq_some_iff.mp hc).2]
      · exact hsolid k c (by omega) hkj hc

/-- A word begins with a character that is not blank and has no other such character before it. -/
theorem exists_isWord_iff (hc : cs[i]? = some c) :
    (∃ j, IsWord cs i j) ↔ ¬ isBlank c ∧ ∀ k d, k + 1 = i → cs[k]? = some d → isBlank d := by
  constructor
  · rintro ⟨j, hword⟩
    exact ⟨hword.solid i c (Nat.le_refl i) hword.lt hc, hword.before⟩
  · rintro ⟨hsolid, hbefore⟩
    have hlt : i < cs.length := (List.getElem?_eq_some_iff.mp hc).1
    obtain ⟨j, hij, hj, hrest, hbehind⟩ := exists_end cs hlt
    refine ⟨j, hij, hj, fun k d hik hkj hd => ?_, hbefore, hbehind⟩
    by_cases hk : k = i
    · subst hk
      obtain rfl := Option.some.inj (hc.symm.trans hd)
      exact hsolid
    · exact hrest k d (by omega) hkj hd

/-! ### Capitals -/

/-- What becomes of a character in title case, where `start` says that a word may start with it. -/
def titled (start : Bool) (c : Codepoint) : List Codepoint :=
  if start && !isBlank c then uppercaseChar c else [c]

/-- What becomes of each character of a text in title case. -/
def titledParts : Bool → List Codepoint → List (List Codepoint)
  | _, [] => []
  | start, c :: cs => titled start c :: titledParts (isBlank c) cs

theorem titled_of_not {start : Bool} (h : ¬ (start && !isBlank c)) : titled start c = [c] :=
  if_neg h

theorem capitalizeWords_cons (start : Bool) (c : Codepoint) (cs : List Codepoint) :
    capitalizeWords start (c :: cs) = titled start c ++ capitalizeWords (isBlank c) cs := by
  rw [capitalizeWords, titled]
  cases isBlank c <;> simp

theorem capitalizeWords_eq_flatten (start : Bool) (cs : List Codepoint) :
    capitalizeWords start cs = (titledParts start cs).flatten := by
  induction cs generalizing start with
  | nil => rfl
  | cons c cs ih => rw [capitalizeWords_cons, titledParts, List.flatten_cons, ih]

@[simp] theorem length_titledParts (start : Bool) (cs : List Codepoint) :
    (titledParts start cs).length = cs.length := by
  induction cs generalizing start with
  | nil => rfl
  | cons c cs ih => rw [titledParts, List.length_cons, ih, List.length_cons]

theorem getElem?_titledParts_zero (start : Bool) (hc : cs[0]? = some c) :
    (titledParts start cs)[0]? = some (titled start c) := by
  cases cs with
  | nil => cases hc
  | cons d cs =>
    cases hc
    rfl

theorem getElem?_titledParts_succ (start : Bool) {b : Codepoint} (hb : cs[i]? = some b)
    (hc : cs[i + 1]? = some c) :
    (titledParts start cs)[i + 1]? = some (titled (isBlank b) c) := by
  induction i generalizing start cs with
  | zero =>
    cases cs with
    | nil => cases hb
    | cons d cs =>
      cases hb
      exact getElem?_titledParts_zero _ hc
  | succ i ih =>
    cases cs with
    | nil => cases hb
    | cons d cs => exact ih (isBlank d) hb hc

/-- The first characters of words become upper case, and no others. -/
theorem getElem?_titledParts (hc : cs[i]? = some c) :
    ((∃ j, IsWord cs i j) → (titledParts true cs)[i]? = some (uppercaseChar c)) ∧
      ((¬ ∃ j, IsWord cs i j) → (titledParts true cs)[i]? = some [c]) := by
  rw [exists_isWord_iff hc]
  cases i with
  | zero =>
    rw [getElem?_titledParts_zero true hc, titled]
    refine ⟨fun hword => ?_, fun hword => ?_⟩
    · rw [if_pos (by simpa using hword.1)]
    · rw [if_neg fun hsolid => hword ⟨by simpa using hsolid, fun _ _ => nofun⟩]
  | succ k =>
    have hlt : k < cs.length := Nat.lt_of_succ_lt (List.getElem?_eq_some_iff.mp hc).1
    have hb : cs[k]? = some cs[k] := List.getElem?_eq_getElem hlt
    rw [getElem?_titledParts_succ true hb hc, titled]
    refine ⟨fun hword => ?_, fun hword => ?_⟩
    · rw [if_pos (by simpa using And.intro (hword.2 k _ rfl hb) hword.1)]
    · refine congrArg some (if_neg fun hstart => hword ?_)
      rw [Bool.and_eq_true, Bool.not_eq_true'] at hstart
      refine ⟨by simp [hstart.2], fun k' d hk hd => ?_⟩
      obtain rfl := Nat.succ.inj hk
      obtain rfl := Option.some.inj (hb.symm.trans hd)
      exact hstart.1

/-! ### Starts of words, one after the other -/

/-- Looks for starts of words from left to right and replaces each. A start is a character that is not
blank, at the beginning of the text if `beginning` says that this is it, or else together with a blank
before it. What has been taken for one start is no part of the next. -/
def replaceStarts (f : Codepoint → List Codepoint) : Bool → List Codepoint → List Codepoint
  | _, [] => []
  | beginning, c :: cs =>
    if beginning && !isBlank c then f c ++ replaceStarts f false cs
    else match cs with
      | [] => [c]
      | d :: cs =>
        if isBlank c && !isBlank d then c :: f d ++ replaceStarts f false cs
        else c :: replaceStarts f false (d :: cs)

theorem capitalizeWords_eq_replaceStarts (start : Bool) (cs : List Codepoint) :
    capitalizeWords start cs = replaceStarts uppercaseChar start cs := by
  fun_induction replaceStarts uppercaseChar start cs with
  | case1 => rfl
  | case2 start c cs hstart ih =>
    have hblank : isBlank c = false := by simp_all
    rw [capitalizeWords_cons, titled, if_pos hstart, hblank, ih]
  | case3 start c hstart => rw [capitalizeWords_cons, titled_of_not hstart]; rfl
  | case4 start c hstart d cs hpair ih =>
    have hblank : isBlank c = true ∧ isBlank d = false := by simpa using hpair
    rw [capitalizeWords_cons, titled_of_not hstart, capitalizeWords_cons, titled, hblank.1,
      hblank.2, ih]
    rfl
  | case5 start c hstart d cs hpair ih =>
    -- a blank that another blank follows tells no more than the other one does
    have hsame : capitalizeWords (isBlank c) (d :: cs) = capitalizeWords false (d :: cs) := by
      rw [capitalizeWords_cons, capitalizeWords_cons, titled_of_not hpair, titled_of_not (by simp)]
    rw [capitalizeWords_cons, titled_of_not hstart, hsame, ih]
    rfl

end Text

namespace Eval

/-- In title case a text is in lower case, but the first character of each word is in upper case, in
which it may be several characters. All else is left as it is, blanks of any number included. To
replace the starts of words one after the other, where each takes the blank before it along, gives the
same text, and so do the filter and the method of strings. -/
theorem title_case (host : Host) (scope : Scope) (a : Args) (s : Text) (st : Store) :
    let cs := Text.lowercase s.toList
    ∃ parts : List (List Codepoint), parts.length = cs.length ∧
      (∀ i c, cs[i]? = some c →
        ((∃ j, Text.IsWord cs i j) → parts[i]? = some (Text.uppercaseChar c)) ∧
        ((¬ ∃ j, Text.IsWord cs i j) → parts[i]? = some [c])) ∧
      Text.titleCase s.toList = parts.flatten ∧
      Text.titleCase s.toList = Text.replaceStarts Text.uppercaseChar true cs ∧
      Leads (applyFilter host scope a.keywords "title" a.positional (.string s)) st
        (.ofPoints parts.flatten) st ∧
      Leads (callStringMethod s .title Args.none) st (.ofPoints parts.flatten) st := by
  intro cs
  have hparts : Text.titleCase s.toList = (Text.titledParts true cs).flatten :=
    Text.capitalizeWords_eq_flatten true cs
  have hfilter : applyFilter host scope a.keywords "title" a.positional (.string s) =
      pure (.ofPoints (Text.titleCase s.toList)) :=
    applyFilter_of_ne_map (by decide) host scope (.string s) a
  have hmethod : callStringMethod s .title Args.none =
      pure (.ofPoints (Text.titleCase s.toList)) := rfl
  refine ⟨Text.titledParts true cs, Text.length_titledParts true cs,
    fun i c hc => Text.getElem?_titledParts hc, hparts,
    Text.capitalizeWords_eq_replaceStarts true cs, ?_, ?_⟩
  · rw [hfilter, hparts]
    exact .pure _ _
  · rw [hmethod, hparts]
    exact .pure _ _

/-- A word after two blanks whose first character becomes two, and what else is in it. -/
theorem title_case_after_blanks :
    let cs := Text.lowercase (Text.ofString "\t ßX").toList
    cs[2]? = some (.ofChar 'ß') ∧ (∃ j, Text.IsWord cs 2 j) ∧ cs[3]? = some (.ofChar 'x') ∧
      (¬ ∃ j, Text.IsWord cs 3 j) ∧
      ∃ parts : List (List Codepoint), parts[2]? = some [.ofChar 'S', .ofChar 'S'] ∧
        parts[3]? = some [.ofChar 'x'] ∧
        Leads (applyFilter Host.none default [] "title" [] (.string "\t ßX")) Store.initial
          (.ofPoints parts.flatten) Store.initial := by
  intro cs
  have hstart : cs[2]? = some (.ofChar 'ß') := rfl
  have hnext : cs[3]? = some (.ofChar 'x') := rfl
  have hword : ∃ j, Text.IsWord cs 2 j := by
    refine (Text.exists_isWord_iff hstart).mpr ⟨by decide, fun k d hk hd => ?_⟩
    obtain rfl : k = 1 := Nat.succ.inj hk
    obtain rfl : .ofChar ' ' = d := Option.some.inj hd
    decide
  have hinside : ¬ ∃ j, Text.IsWord cs 3 j := fun hword =>
    absurd (((Text.exists_isWord_iff hnext).mp hword).2 2 _ rfl hstart) (by decide)
  obtain ⟨parts, -, hparts, -, -, hfilter, -⟩ :=
    title_case Host.none default Args.none "\t ßX" Store.initial
  exact ⟨hstart, hword, hnext, hinside, parts, (hparts 2 _ hstart).1 hword,
    (hparts 3 _ hnext).2 hinside, hfilter⟩

end Eval
end ChatTemplate
