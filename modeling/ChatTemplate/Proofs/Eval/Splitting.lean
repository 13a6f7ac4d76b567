import ChatTemplate.Proofs.Eval.Steps
import ChatTemplate.Proofs.Text.Splitting

/-!
# Splitting and replacing in strings

The methods `split` and `replace` find the same occurrences within the same limit, so that replacing
is splitting, and joining the parts with something else (`Eval.split_join_replace`).
-/

namespace ChatTemplate

/-- The arguments give each parameter what stands beside it, or nothing. -/
def Args.Picks (a : Args) (st : Store) (method : String) (given : Slots String (Option Value)) :
    Prop :=
  ∃ picked, (a.pick method given.names).result st = .ok picked ∧
    ∀ e ∈ given, picked.lookup e.1 = e.2

namespace Text
variable {s t r : Text}

theorem length_toList (s : Text) : s.toList.length = s.length := Array.length_toList

theorem toList_eq_nil : t.toList = [] ↔ t.isEmpty := by
  rw [isEmpty, Array.isEmpty_iff, toList, Array.toList_eq_nil_iff]

/-- The parts of a text between the first `n` occurrences of another one. -/
def parts (t : Text) (n : Nat) (s : Text) : List Text :=
  (splitOn t.toList n s.toList).map ofList

theorem toList_parts (t : Text) (n : Nat) (s : Text) :
    (t.parts n s).map toList = splitOn t.toList n s.toList := by
  rw [parts, List.map_map]
  exact List.map_id _

theorem intercalate_parts (ht : t.toList ≠ []) (n : Nat) (s : Text) :
    t.intercalate (t.parts n s) = s := by
  rw [intercalate, toList_parts, intercalate_splitOn ht, ofList_toList]

end Text

namespace Eval
variable {st : Store} {a : Args} {s t r : Text} {limit : Option Int}

/-- The limit that a number of occurrences sets. -/
def cap (limit : Option Int) (whole : Nat) : Nat :=
  if limit.getD (-1) < 0 then whole else (limit.getD (-1)).toNat

theorem leads_asLimit (method : String) (limit : Option Int) (st : Store) :
    Leads (asLimit method (limit.map .int)) st (limit.getD (-1)) st := by
  cases limit <;> exact ⟨rfl, rfl⟩

theorem leads_asSize (hlimit : ∀ c ∈ limit, -maxSize - 1 ≤ c ∧ c ≤ maxSize) (whole : Nat) :
    Leads (asSize (limit.getD (-1)) whole) st (cap limit whole) st := by
  have hrange : ¬ (limit.getD (-1) < -maxSize - 1 || maxSize < limit.getD (-1)) := by
    cases limit with
    | none => decide
    | some c =>
      have := hlimit c rfl
      simp
      omega
  rw [asSize, if_neg hrange]
  exact .pure _ _

theorem leads_split (ht : t.toList ≠ []) (hlimit : ∀ c ∈ limit, -maxSize - 1 ≤ c ∧ c ≤ maxSize)
    (ha : a.Picks st "split" [("sep", some (.string t)), ("maxsplit", limit.map .int)]) :
    Leads (callStringMethod s .split a) st (.array ((t.parts (cap limit s.length) s).map .string))
      st := by
  obtain ⟨picked, hpick, hgiven⟩ := ha
  simp only [List.forall_mem_cons] at hgiven
  obtain ⟨hsep, hmax, -⟩ := hgiven
  have hsome : Leads (asString? "split" (some (.string t))) st (some t) st := ⟨rfl, rfl⟩
  refine (leads_pick hpick).bind ?_
  rw [hsep, hmax]
  refine (leads_asLimit "split" limit st).bind (hsome.bind ((leads_asSize hlimit s.length).bind ?_))
  dsimp only
  rw [if_neg (mt Text.toList_eq_nil.mpr ht), Text.parts, List.map_map]
  exact .pure _ _

theorem leads_replace (ht : t.toList ≠ []) (hlimit : ∀ c ∈ limit, -maxSize - 1 ≤ c ∧ c ≤ maxSize)
    (ha : a.Picks st "replace"
      [("old", some (.string t)), ("new", some (.string r)), ("count", limit.map .int)]) :
    Leads (callStringMethod s .replace a) st
      (.string (r.intercalate (t.parts (cap limit (s.length + 1)) s))) st := by
  obtain ⟨picked, hpick, hgiven⟩ := ha
  simp only [List.forall_mem_cons] at hgiven
  obtain ⟨hold, hnew, hcount, -⟩ := hgiven
  have hstring (t : Text) : Leads (asString "replace" (.string t)) st t st := .pure _ _
  refine (leads_pick hpick).bind ?_
  rw [hold, hnew, hcount]
  refine (leads_asLimit "replace" limit st).bind ((hstring t).bind ((hstring r).bind
    ((leads_asSize hlimit (s.length + 1)).bind ?_)))
  rw [Text.replace_eq_intercalate ht, Text.intercalate, Text.toList_parts]
  exact .pure _ _

theorem leads_join (host : Host) (scope : Scope) (ts : List Text)
    (ha : a.Picks st "join" [("d", some (.string r))]) :
    Leads (applyFilter host scope a.keywords "join" a.positional (.array (ts.map .string))) st
      (.string (r.intercalate ts)) st := by
  have happly (v : Value) : applyFilter host scope a.keywords "join" a.positional v =
      joinFilter v a := applyFilter_of_ne_map (by decide) host scope v a
  have htexts : Leads ((ts.map Value.string).mapM textOf) st ts st := by
    induction ts with
    | nil => exact .pure _ _
    | cons t ts ih =>
      rw [List.map_cons, List.mapM_cons]
      exact (leads_textOf_string t st).bind (ih.bind (.pure _ _))
  obtain ⟨picked, hpick, hgiven⟩ := ha
  simp only [List.forall_mem_cons] at hgiven
  rw [happly]
  refine (leads_pick hpick).bind ?_
  rw [hgiven.1]
  exact (leads_textOf_string r st).bind (htexts.bind (.pure _ _))

/-- The parts of a string between the first occurrences of another one that is not empty, joined with
it give the string back, and joined with anything else what `replace` makes of it. There are no more
of them than the limit sets, and without a limit no occurrence is left in them. -/
theorem split_join_replace (host : Host) (scope : Scope) {split replace : Args} (ht : t.toList ≠ [])
    (hlimit : ∀ c ∈ limit, -maxSize - 1 ≤ c ∧ c ≤ maxSize)
    (hsplit : split.Picks st "split" [("sep", some (.string t)), ("maxsplit", limit.map .int)])
    (hreplace : replace.Picks st "replace"
      [("old", some (.string t)), ("new", some (.string r)), ("count", limit.map .int)]) :
    ∃ parts : List Text,
      Leads (callStringMethod s .split split) st (.array (parts.map .string)) st ∧
      (∀ sep (join : Args), join.Picks st "join" [("d", some (.string sep))] →
        Leads (applyFilter host scope join.keywords "join" join.positional
          (.array (parts.map .string))) st (.string (sep.intercalate parts)) st) ∧
      t.intercalate parts = s ∧
      Leads (callStringMethod s .replace replace) st (.string (r.intercalate parts)) st ∧
      (∀ c ∈ limit, 0 ≤ c → parts.length ≤ c + 1) ∧
      ((∀ c ∈ limit, c < 0) → ∀ part ∈ parts, ¬ t.toList <:+: part.toList) := by
  have hwhole (h : limit.getD (-1) < 0) (whole : Nat) : cap limit whole = whole := if_pos h
  have hsame : t.parts (cap limit (s.length + 1)) s = t.parts (cap limit s.length) s := by
    by_cases h : limit.getD (-1) < 0
    · rw [hwhole h, hwhole h, Text.parts, Text.splitOn_eq_of_le ht]
      · rfl
      · rw [s.length_toList]
        exact Nat.le_succ _
      · rw [s.length_toList]
    · rw [cap, cap, if_neg h, if_neg h]
  refine ⟨t.parts (cap limit s.length) s, leads_split ht hlimit hsplit,
    fun sep join hjoin => leads_join host scope _ hjoin, Text.intercalate_parts ht _ s,
    hsame ▸ leads_replace ht hlimit hreplace, fun c hc hpos => ?_, fun hneg part hpart => ?_⟩
  · cases hc
    have hle := Text.length_splitOn_le t.toList (cap (some c) s.length) s.toList
    have hcap : cap (some c) s.length = c.toNat := if_neg (Int.not_lt.mpr hpos)
    rw [hcap] at hle ⊢
    rw [Text.parts, List.length_map]
    omega
  · have hnone : limit.getD (-1) < 0 := by
      cases limit with
      | none => decide
      | some c => exact hneg c rfl
    rw [hwhole hnone] at hpart
    obtain ⟨piece, hpiece, rfl⟩ := List.mem_map.mp hpart
    exact Text.not_infix_of_mem_splitOn ht s.length_toList.le hpiece

/-- Occurrences overlap, and there is an empty part at the end. -/
theorem split_join_replace_overlapping :
    let split : Args := ⟨[.string "aa", .int 2], []⟩
    let replace : Args := ⟨[.string "aa"], [("new", .string "b"), ("count", .int 2)]⟩
    ∃ parts : List Text,
      Leads (callStringMethod "aaaa" .split split) Store.initial (.array (parts.map .string))
        Store.initial ∧
      Text.intercalate "aa" parts = "aaaa" ∧
      Leads (callStringMethod "aaaa" .replace replace) Store.initial
        (.string (Text.intercalate "b" parts)) Store.initial ∧
      parts.length ≤ (3 : Int) := by
  intro split replace
  have hsplit : split.Picks Store.initial "split"
      [("sep", some (.string "aa")), ("maxsplit", (some 2).map .int)] :=
    ⟨[("sep", .string "aa"), ("maxsplit", .int 2)], rfl,
      List.forall_mem_cons.mpr ⟨rfl, List.forall_mem_singleton.mpr rfl⟩⟩
  have hreplace : replace.Picks Store.initial "replace"
      [("old", some (.string "aa")), ("new", some (.string "b")), ("count", (some 2).map .int)] :=
    ⟨[("old", .string "aa"), ("new", .string "b"), ("count", .int 2)], rfl,
      List.forall_mem_cons.mpr ⟨rfl, List.forall_mem_cons.mpr ⟨rfl, List.forall_mem_singleton.mpr rfl⟩⟩⟩
  have hlimit : ∀ c ∈ some (2 : Int), -maxSize - 1 ≤ c ∧ c ≤ maxSize := by decide
  obtain ⟨parts, hparts, -, hjoin, hreplaced, hlength, -⟩ :=
    split_join_replace (s := "aaaa") Host.none default (by decide) hlimit hsplit hreplace
  exact ⟨parts, hparts, hjoin, hreplaced, hlength 2 rfl (by decide)⟩

end Eval
end ChatTemplate
