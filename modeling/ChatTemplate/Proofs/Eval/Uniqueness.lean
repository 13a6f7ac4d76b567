import ChatTemplate.Proofs.Eval.Steps
import ChatTemplate.Proofs.Store.Equality

/-!
# Unique items

The filter `unique` compares an item with those that it has kept, not with all before it. As equality
is transitive, that makes no difference: what equals an item equals the first of those that are equal
to it (`Store.any_firsts`). So the filter keeps the items that equal none before them
(`Store.firsts`), and a value is found among them where it is found among all.
-/

namespace ChatTemplate

namespace Store
variable {st : Store} {items : List Value} {v : Value}

/-- Does comparing the values answer that they are equal? -/
def same (st : Store) (v w : Value) : Bool := st.equal? v w == some true

/-- The items that equal none before them. -/
def firsts (st : Store) (items : List Value) : List Value :=
  (items.zipIdx.filter fun (v, i) => !(items.take i).any (st.same · v)).map Prod.fst

/-! ### Looking for a value -/

theorem equal?_eq_same {w : Value} (h : st.NanFree v) : st.equal? v w = some (st.same v w) := by
  obtain ⟨b, hb⟩ := Option.isSome_iff_exists.mp (h.equal?_isSome w)
  rw [same, hb]
  cases b <;> rfl

theorem holds?_eq_any (h : ∀ u ∈ items, st.NanFree u) :
    st.holds? items v = some (items.any (st.same · v)) := by
  induction items with
  | nil => rfl
  | cons u items ih =>
    obtain ⟨hu, hitems⟩ := List.forall_mem_cons.mp h
    have := ih hitems
    unfold holds? at this ⊢
    rw [allPass, equal?_eq_same hu, List.any_cons]
    cases st.same u v with
    | true => rfl
    | false => exact this

theorem same_trans (hst : st.Dictionaries) {u w : Value} (huv : st.same u v) (hvw : st.same v w) :
    st.same u w :=
  beq_iff_eq.mpr (hst.equalityLaws.transitive u v w (eq_of_beq huv) (eq_of_beq hvw))

/-! ### First items -/

theorem firsts_concat (st : Store) (items : List Value) (v : Value) :
    st.firsts (items ++ [v]) =
      st.firsts items ++ if items.any (st.same · v) then [] else [v] := by
  have hfilter : items.zipIdx.filter
        (fun (w, i) => !((items ++ [v]).take i).any (st.same · w)) =
      items.zipIdx.filter fun (w, i) => !(items.take i).any (st.same · w) := by
    refine List.filter_congr fun (w, i) hwi => ?_
    have hi : i ≤ items.length := (List.mem_zipIdx hwi).2.1.le.trans (by simp)
    simp only [List.take_append_of_le_length hi]
  rw [firsts, List.zipIdx_append, List.filter_append, hfilter, List.map_append, ← firsts]
  simp only [List.zipIdx_cons, List.zipIdx_nil, List.filter_cons, List.filter_nil, Nat.zero_add,
    List.take_left]
  cases items.any (st.same · v) <;> rfl

theorem mem_of_mem_firsts (h : v ∈ st.firsts items) : v ∈ items := by
  obtain ⟨⟨w, i⟩, hwi, rfl⟩ := List.mem_map.mp h
  exact (List.mem_zipIdx' (List.mem_filter.mp hwi).1).2 ▸ List.getElem_mem _

/-- A value equals an item if and only if it equals one of the first items. -/
theorem any_firsts (hst : st.Dictionaries) (items : List Value) (v : Value) :
    (st.firsts items).any (st.same · v) = items.any (st.same · v) := by
  induction items using List.reverseRecOn generalizing v with
  | nil => rfl
  | append_singleton items w ih =>
    rw [firsts_concat, List.any_append, List.any_append, ih]
    split_ifs with hany
    · cases hwv : st.same w v with
      | false => simp [hwv]
      | true =>
        obtain ⟨u, hu, huw⟩ := List.any_eq_true.mp hany
        have huv : items.any (st.same · v) := List.any_eq_true.mpr ⟨u, hu, same_trans hst huw hwv⟩
        rw [huv]
        rfl
    · rfl

theorem pairwise_firsts (items : List Value) :
    (st.firsts items).Pairwise fun u v => ¬ st.same u v := by
  induction items using List.reverseRecOn with
  | nil => exact .nil
  | append_singleton items w ih =>
    rw [firsts_concat]
    split_ifs with hany
    · rwa [List.append_nil]
    · refine List.pairwise_append.mpr ⟨ih, List.pairwise_singleton _ _, fun u hu v hv => ?_⟩
      cases List.mem_singleton.mp hv
      exact fun huv => hany (List.any_eq_true.mpr ⟨u, mem_of_mem_firsts hu, huv⟩)

theorem firsts_eq_self (h : items.Pairwise fun u v => ¬ st.same u v) : st.firsts items = items := by
  induction items using List.reverseRecOn with
  | nil => rfl
  | append_singleton items w ih =>
    obtain ⟨hitems, -, hw⟩ := List.pairwise_append.mp h
    have hany : ¬ items.any (st.same · w) := by
      rw [List.any_eq_true]
      exact fun ⟨u, hu, huw⟩ => hw u hu w (List.mem_singleton_self w) huw
    rw [firsts_concat, if_neg hany, ih hitems]

end Store

namespace Eval
variable {st : Store}

/-- Items that are seen after others: those are kept that are the first ones of all. -/
theorem leads_unique (hst : st.Dictionaries) (before rest : List Value)
    (h : ∀ v ∈ before ++ rest, st.NanFree v) :
    Leads (unique (st.firsts before) rest) st (st.firsts (before ++ rest)) st := by
  induction rest generalizing before with
  | nil =>
    rw [List.append_nil]
    exact .pure _ _
  | cons v rest ih =>
    have hkept : ∀ u ∈ st.firsts before, st.NanFree u :=
      fun u hu => h u (List.mem_append_left _ (Store.mem_of_mem_firsts hu))
    have hanswer := Store.holds?_eq_any (v := v) hkept
    rw [Store.any_firsts hst] at hanswer
    refine (leads_finite hanswer).bind ?_
    have hrest := ih (before ++ [v]) (by simpa using h)
    rw [Store.firsts_concat, List.append_assoc] at hrest
    split_ifs at hrest ⊢
    · simpa using hrest
    · simpa using hrest

/-- Looking for a value in an array depends on nothing else than whether the array holds it. -/
theorem binary_congr_of_holds? {vs ws : List Value} {v : Value} (h : st.holds? vs v = st.holds? ws v)
    {op : String} (hop : op = "in" ∨ op = "not in") :
    (binary op v (.array vs)).run.run st = (binary op v (.array ws)).run.run st := by
  by_cases habsent : v = .undefined ∨ v = .null
  · rcases hop with rfl | rfl <;> rcases habsent with rfl | rfl <;> rfl
  · obtain ⟨hundefined, hnull⟩ := not_or.mp habsent
    have hasks (items : List Value) : binary op v (.array items) =
        (do return membership op (← finite (·.holds? items v))) := by
      rcases hop with rfl | rfl <;> cases v <;> first
        | rfl
        | exact absurd rfl hundefined
        | exact absurd rfl hnull
    have hfinite : (finite (·.holds? vs v)).run.run st = (finite (·.holds? ws v)).run.run st :=
      run_finite_congr h
    simp only [hasks, ExceptT.run_bind, StateT.run_bind, hfinite]

/-- The filter `unique` keeps the items that equal none before them, of which no two are equal. It
keeps all of them when it is applied again, and they hold the values that the array holds. -/
theorem unique_filter (host : Host) (scope : Scope) (a : Args) (hst : st.Dictionaries) :
    let uniquely items := applyFilter host scope a.keywords "unique" a.positional (.array items)
    st.EqualityLaws ∧
    ∀ items, (∀ v ∈ items, st.NanFree v) →
      Leads (uniquely items) st (.array (st.firsts items)) st ∧
      (st.firsts items).Pairwise (fun v w => st.equal? v w = some false) ∧
      Leads (uniquely (st.firsts items)) st (.array (st.firsts items)) st ∧
      ∀ v op, op = "in" ∨ op = "not in" →
        (binary op v (.array (st.firsts items))).run.run st =
          (binary op v (.array items)).run.run st := by
  have happly (items : List Value) :
      applyFilter host scope a.keywords "unique" a.positional (.array items) =
        (do return Value.array (← unique [] items)) :=
    applyFilter_of_ne_map (by decide) host scope (.array items) a
  dsimp only
  simp only [happly]
  refine ⟨hst.equalityLaws, fun items hitems => ?_⟩
  have hunique (items : List Value) (hitems : ∀ v ∈ items, st.NanFree v) :
      Leads (do return Value.array (← unique [] items)) st (.array (st.firsts items)) st :=
    (leads_unique hst [] items hitems).bind (.pure _ _)
  have hfirsts : ∀ v ∈ st.firsts items, st.NanFree v :=
    fun v hv => hitems v (Store.mem_of_mem_firsts hv)
  have hpairwise := st.pairwise_firsts items
  refine ⟨hunique items hitems, hpairwise.imp_of_mem fun {v w} hv _ hvw => ?_, ?_, fun v op hop => ?_⟩
  · rw [Store.equal?_eq_same (hfirsts v hv), eq_false_of_ne_true hvw]
  · simpa only [Store.firsts_eq_self hpairwise] using hunique (st.firsts items) hfirsts
  · refine binary_congr_of_holds? ?_ hop
    rw [Store.holds?_eq_any hfirsts, Store.holds?_eq_any hitems, Store.any_firsts hst]

/-- Of two objects that hold `1` and `true`, and of `true` and `1`, the first ones are kept. -/
theorem unique_filter_objects :
    let st := (Store.initial.pushObject [("a", .int 1)]).pushObject [("a", .bool true)]
    let items : List Value := [.object 0, .bool true, .object 1, .int 1]
    st.Dictionaries ∧ (∀ v ∈ items, st.NanFree v) ∧
      Leads (applyFilter Host.none default [] "unique" [] (.array items)) st
        (.array [.object 0, .bool true]) st := by
  intro st items
  have hst : st.Dictionaries :=
    (Store.dictionaries_initial.pushObject (by decide)).pushObject (by decide)
  have hitems : ∀ v ∈ items, st.NanFree v := by
    simp only [items, List.forall_mem_cons]
    refine ⟨.object ?_, .bool true, .object ?_, .int 1, nofun⟩
    · exact List.forall_mem_singleton.mpr (.int 1)
    · exact List.forall_mem_singleton.mpr (.bool true)
  exact ⟨hst, hitems, ((unique_filter Host.none default Args.none hst).2 items hitems).1⟩

end Eval
end ChatTemplate
