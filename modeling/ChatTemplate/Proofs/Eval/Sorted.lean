import ChatTemplate.Proofs.Eval.Steps
import ChatTemplate.Proofs.Number.Amount
import ChatTemplate.Proofs.Sorting.Stability
import Mathlib.Data.List.Lex

/-!
# Sorted arrays

The filter `sort` orders strings by their code points and numbers by their exact amounts, and is
stable. In an array of two or more items each one is compared with another, however the sort goes
about it: what is sorted without an error is of one ranking (`Eval.pairwise_comparable_of_sort`), as
being comparable is transitive.
-/

namespace ChatTemplate

/-- The code points of a text as numbers. -/
def Text.codes (s : Text) : List ℕ := s.toList.map Codepoint.toNat

theorem Text.lt_iff_codes_lt {s t : Text} : s < t ↔ s.codes < t.codes := by
  show s.toList < t.toList ↔ s.toList.map Codepoint.toNat < t.toList.map Codepoint.toNat
  generalize s.toList = cs
  generalize t.toList = ds
  induction cs generalizing ds with
  | nil => cases ds <;> simp
  | cons c cs ih =>
    cases ds with
    | nil => simp
    | cons d ds =>
      have heq : c = d ↔ c.toNat = d.toNat := ⟨congrArg _, fun h => by cases c; cases d; simp_all⟩
      rw [List.map_cons, List.map_cons, List.cons_lt_cons_iff, List.cons_lt_cons_iff, ih, heq]
      rfl

/-- What a value is compared as. -/
inductive Ranking
  | number
  | string

/-- A number is compared with numbers, a string with strings, and any other value with none. -/
def Value.ranking? : Value → Option Ranking
  | .int _ | .float _ => some .number
  | .string _ => some .string
  | _ => none

/-- The values have the same ranking. -/
def Value.Comparable (v w : Value) : Prop :=
  ∃ ranking, v.ranking? = some ranking ∧ w.ranking? = some ranking

theorem Value.Comparable.symm {v w : Value} (h : v.Comparable w) : w.Comparable v := by
  obtain ⟨ranking, hv, hw⟩ := h
  exact ⟨ranking, hw, hv⟩

theorem Value.Comparable.trans ⦃v w u : Value⦄ (hvw : v.Comparable w) (hwu : w.Comparable u) :
    v.Comparable u := by
  obtain ⟨ranking, hv, hw⟩ := hvw
  obtain ⟨ranking', hw', hu⟩ := hwu
  cases hw.symm.trans hw'
  exact ⟨ranking, hv, hu⟩

namespace Eval

/-! ### Comparing -/

theorem less_ofNumber {m n : Number} (hm : m.exact ≠ .nan) (hn : n.exact ≠ .nan) :
    less (.ofNumber m) (.ofNumber n) = .ok (decide (m.amount < n.amount)) := by
  have hless : less (.ofNumber m) (.ofNumber n) = .ok (m.compare? n == some .lt) := by
    cases m <;> cases n <;> rfl
  rw [hless, Number.compare?, Bool.beq_eq_decide_eq, Number.amount, Number.amount]
  exact congrArg Except.ok (decide_eq_decide.mpr (Double.compare?_eq_some_lt hm hn))

theorem less_string (s t : Text) {_ : Decidable (s.codes < t.codes)} :
    less (.string s) (.string t) = .ok (decide (s.codes < t.codes)) :=
  congrArg Except.ok (decide_eq_decide.mpr Text.lt_iff_codes_lt)

theorem comparable_of_less_eq_ok {v w : Value} {b : Bool} (h : less v w = .ok b) :
    v.Comparable w := by
  cases v <;> cases w <;> first
    | exact ⟨.number, rfl, rfl⟩
    | exact ⟨.string, rfl, rfl⟩
    | cases h

theorem kind_of_less_eq_error {v w : Value} {cause : Cause} (h : less v w = .error cause) :
    cause.kind = .evaluation := by
  unfold less at h
  split at h
  · cases h
  · split at h
    · cases h
    · split_ifs at h <;> cases h <;> rfl

/-- Items that are sorted without an error are comparable, each with each. -/
theorem pairwise_comparable_of_sort {items sorted : List Value}
    (h : Sorting.sort less items = .ok sorted) : items.Pairwise Value.Comparable := by
  have hdecides (v w : Value) : Sorting.Decides less Value.Comparable v w :=
    ⟨comparable_of_less_eq_ok, fun hless => (comparable_of_less_eq_ok hless).symm⟩
  obtain ⟨hperm, hordered⟩ := Sorting.sort_gives Value.Comparable.trans items
    (List.pairwise_of_forall hdecides) sorted h
  exact (hperm.pairwise_iff Value.Comparable.symm).mp hordered

/-- Two or more comparable items have one ranking. -/
theorem exists_ranking_of_pairwise {items : List Value} (hlength : 2 ≤ items.length)
    (h : items.Pairwise Value.Comparable) : ∃ ranking, ∀ v ∈ items, v.ranking? = some ranking := by
  match items, hlength with
  | v :: w :: rest, _ =>
    obtain ⟨hfirst, -⟩ := List.pairwise_cons.mp h
    obtain ⟨ranking, hv, -⟩ := hfirst w List.mem_cons_self
    refine ⟨ranking, List.forall_mem_cons.mpr ⟨hv, fun u hu => ?_⟩⟩
    obtain ⟨ranking', hv', hu⟩ := hfirst u hu
    rwa [← hv, hv']

/-! ### The filter -/

variable {items : List Value} {a : Args} {picked : Slots String Value} {st : Store}

theorem leads_sortFilter (hpick : (a.pick "sort" ["reverse"]).result st = .ok picked)
    {sorted : List Value} (hsort : Sorting.sort less items = .ok sorted) :
    Leads (sortFilter items a) st
      (.array (if st.flag picked "reverse" then sorted.reverse else sorted)) st := by
  refine (leads_pick hpick).bind ?_
  rw [hsort]
  exact (leads_flag picked "reverse" st).bind (.pure _ _)

theorem result_sortFilter_of_error (hpick : (a.pick "sort" ["reverse"]).result st = .ok picked)
    {cause : Cause} (hsort : Sorting.sort less items = .error cause) :
    (sortFilter items a).result st = .error (.error cause none) := by
  rw [sortFilter, result_bind_ok hpick, hsort]
  rfl

/-- Items that the keys `key` put into order are sorted by them. -/
theorem leads_sortFilter_map {κ α : Type} [LinearOrder κ] {key : α → κ} {f : α → Value}
    (hpick : (a.pick "sort" ["reverse"]).result st = .ok picked) {xs : List α}
    (h : ∀ x ∈ xs, ∀ y ∈ xs, less (f x) (f y) = .ok (decide (key x < key y))) :
    ∃ sorted, Sorting.StablySorted key xs sorted ∧
      Leads (sortFilter (xs.map f) a) st
        (.array ((if st.flag picked "reverse" then sorted.reverse else sorted).map f)) st := by
  obtain ⟨sorted, hsort, hsorted⟩ : ∃ sorted, Sorting.sort (Sorting.renamed less f) xs = .ok sorted ∧
      Sorting.StablySorted key xs sorted := Sorting.sort_stable h
  refine ⟨sorted, hsorted, ?_⟩
  rw [apply_ite (List.map f), List.map_reverse]
  refine leads_sortFilter hpick ?_
  rw [Sorting.sort_map, hsort]
  rfl

/-- Items of two rankings, or one of none, are not sorted, in whatever order they are compared. -/
theorem exists_sort_eq_error (hlength : 2 ≤ items.length)
    (h : (∃ v ∈ items, (∀ n, v ≠ .ofNumber n) ∧ ∀ s, v ≠ .string s) ∨
      ∃ n s, .ofNumber n ∈ items ∧ .string s ∈ items) :
    ∃ cause, cause.kind = .evaluation ∧ Sorting.sort less items = .error cause := by
  cases hsort : Sorting.sort less items with
  | error cause =>
    refine ⟨cause, Sorting.sort_fails (P := fun c => c.kind = .evaluation) ?_ items cause hsort, rfl⟩
    exact fun v w cause hless => kind_of_less_eq_error hless
  | ok sorted =>
    obtain ⟨ranking, hranking⟩ :=
      exists_ranking_of_pairwise hlength (pairwise_comparable_of_sort hsort)
    rcases h with ⟨v, hv, hnumber, hstring⟩ | ⟨n, s, hn, hs⟩
    · have hsome := hranking v hv
      cases v with
      | int i => exact absurd rfl (hnumber (.int i))
      | float f => exact absurd rfl (hnumber (.float f))
      | string s => exact absurd rfl (hstring s)
      | _ => cases hsome
    · have hnumber : (Value.ofNumber n).ranking? = some .number := by cases n <;> rfl
      cases (hranking _ hn).symm.trans hnumber
      cases hranking _ hs

/-- The filter `sort` puts strings into the order of their code points, and numbers into that of
their amounts. Equal items keep their order, and a true `reverse` reverses all that. Two or more
items that are not all strings or all numbers are not sorted. -/
theorem sort_filter (host : Host) (scope : Scope)
    (hpick : (a.pick "sort" ["reverse"]).result st = .ok picked) :
    let sorting items := applyFilter host scope a.keywords "sort" a.positional (.array items)
    let reversed := st.flag picked "reverse"
    (∀ texts, ∃ sorted, Sorting.StablySorted Text.codes texts sorted ∧
      Leads (sorting (texts.map .string)) st
        (.array ((if reversed then sorted.reverse else sorted).map .string)) st) ∧
    (∀ numbers, (∀ n ∈ numbers, n.exact ≠ .nan) →
      ∃ sorted, Sorting.StablySorted Number.amount numbers sorted ∧
        Leads (sorting (numbers.map .ofNumber)) st
          (.array ((if reversed then sorted.reverse else sorted).map .ofNumber)) st) ∧
    ∀ items, 2 ≤ items.length →
      ((∃ v ∈ items, (∀ n, v ≠ .ofNumber n) ∧ ∀ s, v ≠ .string s) ∨
        ∃ n s, .ofNumber n ∈ items ∧ .string s ∈ items) →
      ∃ cause, cause.kind = .evaluation ∧ (sorting items).result st = .error (.error cause none) := by
  have happly (items : List Value) :
      applyFilter host scope a.keywords "sort" a.positional (.array items) = sortFilter items a :=
    applyFilter_of_ne_map (by decide) host scope (.array items) a
  dsimp only
  simp only [happly]
  refine ⟨fun texts => ?_, fun numbers hnumbers => ?_, fun items hlength hitems => ?_⟩
  · exact leads_sortFilter_map hpick fun s _ t _ => less_string s t
  · exact leads_sortFilter_map hpick fun m hm n hn => less_ofNumber (hnumbers m hm) (hnumbers n hn)
  · obtain ⟨cause, hkind, hsort⟩ := exists_sort_eq_error hlength hitems
    exact ⟨cause, hkind, result_sortFilter_of_error hpick hsort⟩

/-- Two numbers of one amount are in the opposite order after sorting in reverse. -/
theorem sort_filter_reversed :
    let numbers : List Number := [.int 1, .float 0.5, .float 1.0]
    (Args.pick ⟨[.bool true], []⟩ "sort" ["reverse"]).result Store.initial =
        .ok [("reverse", .bool true)] ∧
      (∀ n ∈ numbers, n.exact ≠ .nan) ∧
      ∃ sorted, Sorting.StablySorted Number.amount numbers sorted ∧
        Leads (applyFilter Host.none default [] "sort" [.bool true]
          (.array (numbers.map .ofNumber))) Store.initial (.array (sorted.reverse.map .ofNumber))
          Store.initial := by
  intro numbers
  have hpick : (Args.pick ⟨[.bool true], []⟩ "sort" ["reverse"]).result Store.initial =
      .ok [("reverse", .bool true)] := rfl
  have hnumbers : ∀ n ∈ numbers, n.exact ≠ .nan := by decide
  exact ⟨hpick, hnumbers, (sort_filter Host.none default hpick).2.1 numbers hnumbers⟩

end Eval
end ChatTemplate
