import ChatTemplate.Proofs.Eval.Looking
import ChatTemplate.Proofs.Eval.Loops
import ChatTemplate.Proofs.Eval.Steps
import Mathlib.Data.List.Forall2

/-!
# Splitting an array by an attribute

`selectattr` and `rejectattr` pass the same verdicts on the items (`Eval.verdicts`), which both need all
of them, and only then keep some. So they fail together, and what they keep are the two parts of the
array (`Eval.selectattr_rejectattr_split`).
-/

namespace ChatTemplate

/-- Two faults are of one class: template errors of one kind, or else the same. -/
def Fault.SameClass : Fault → Fault → Prop
  | .error cause _, .error cause' _ => cause.kind = cause'.kind
  | f, g => f = g

theorem Fault.SameClass.refl (f : Fault) : f.SameClass f := by
  cases f <;> rfl

namespace Eval
variable {α β : Type} {host : Host} {scope : Scope} {st st' : Store} {items : List Value}
  {refs : List ObjectRef} {a : Args} {bs : List Bool}

/-! ### The parts of a list -/

/-- The items of the places that are `true`. -/
def kept : List α → List Bool → List α
  | a :: as, passed :: bs => if passed then a :: kept as bs else kept as bs
  | _, _ => []

/-- A list put together from its two parts, each in its order: an item of the first one for `true`, of
the second one for `false`. -/
def merged : List Bool → List α → List α → List α
  | true :: bs, x :: xs, ys => x :: merged bs xs ys
  | false :: bs, xs, y :: ys => y :: merged bs xs ys
  | _, _, _ => []

theorem merged_kept {as : List α} (h : bs.length = as.length) :
    merged bs (kept as bs) (kept as (bs.map not)) = as := by
  induction bs generalizing as with
  | nil => exact (List.eq_nil_of_length_eq_zero h.symm).symm
  | cons b bs ih =>
    cases as with
    | nil => cases h
    | cons a as =>
      have htail := ih (Nat.succ.inj h)
      cases b with
      | true => exact congrArg (a :: ·) htail
      | false => exact congrArg (a :: ·) htail

theorem kept_map (f : α → β) (as : List α) (bs : List Bool) :
    kept (as.map f) bs = (kept as bs).map f := by
  induction as generalizing bs with
  | nil => rfl
  | cons a as ih =>
    cases bs with
    | nil => rfl
    | cons b bs =>
      cases b with
      | true => exact congrArg (f a :: ·) (ih bs)
      | false => exact ih bs

/-- To filter is to pass the verdicts and to keep the items by them. -/
theorem filterM_eq_mapM_kept (p : α → Eval Bool) (keep : Bool) (as : List α) :
    (as.filterM fun a => return (← p a) == keep) = do
      let bs ← as.mapM p
      return kept as (bs.map (· == keep)) := by
  have haux (acc : List α) : (as.filterAuxM (fun a => return (← p a) == keep) acc) = do
      let bs ← as.mapM p
      return (kept as (bs.map (· == keep))).reverse ++ acc := by
    induction as generalizing acc with
    | nil => simp [List.filterAuxM, kept]
    | cons a as ih =>
      simp only [List.filterAuxM, List.mapM_cons, bind_assoc, pure_bind]
      refine bind_congr fun b => ?_
      rw [ih]
      refine bind_congr fun bs => ?_
      rw [List.map_cons, kept]
      cases b == keep <;> simp
  rw [List.filterM, haux]
  simp

/-! ### Verdicts -/

/-- What the attribute of an item has to be: true, or something that passes a test. -/
inductive Criterion
  | truth
  | test (known : String) (test : Test) (extra : List Value)

def Criterion.judge (host : Host) : Criterion → Value → Eval Bool
  | .truth, v => truthy v
  | .test known t extra, v => runTest host known t v extra

/-- The attribute of an object, undefined where it is missing. -/
def attributeOf (attr : Text) (r : ObjectRef) : Eval Value :=
  return ((← slotsOf r).lookup attr).getD .undefined

/-- The attribute to be judged and the criterion for it. -/
def criterion (scope : Scope) (filter : String) (a : Args) : Eval (Text × Criterion) :=
  match attributeNames? a with
  | none => fail (.attributeNames filter)
  | some (attr, none) => return (attr, .truth)
  | some (attr, some name) => do
    let (known, test) ← findTest scope name
    let extra ← Args.values { a with positional := a.positional.drop 2 }
    return (attr, .test known test extra)

/-- The verdicts on the items, which `selectattr` and `rejectattr` have in common. -/
def verdicts (host : Host) (scope : Scope) (filter : String) (items : List Value) (a : Args) :
    Eval (List Bool) :=
  match objectRefs? items with
  | none => fail (.attributeOperand filter)
  | some refs => do
    let (attr, c) ← criterion scope filter a
    refs.mapM fun r => do c.judge host (← attributeOf attr r)

theorem objectRefs?_eq_some_iff : objectRefs? items = some refs ↔ items = refs.map .object := by
  induction items generalizing refs with
  | nil =>
    rw [objectRefs?, Option.some.injEq, eq_comm, eq_comm (a := []), List.map_eq_nil_iff]
  | cons v vs ih =>
    cases v with
    | object r =>
      rw [objectRefs?, Option.map_eq_some_iff]
      constructor
      · rintro ⟨refs, hrefs, rfl⟩
        rw [ih.mp hrefs, List.map_cons]
      · intro h
        cases refs with
        | nil => cases h
        | cons r' refs =>
          obtain ⟨⟨⟩, hvs⟩ := List.cons.inj h
          exact ⟨refs, ih.mpr hvs, rfl⟩
    | _ =>
      refine ⟨nofun, fun h => ?_⟩
      cases refs with
      | nil => cases h
      | cons r refs => cases (List.cons.inj h).1

theorem selectByAttribute_eq (filter : String) (keep : Bool) :
    selectByAttribute host scope filter keep items a = do
      let bs ← verdicts host scope filter items a
      return .array (kept items (bs.map (· == keep))) := by
  unfold selectByAttribute verdicts criterion
  cases hrefs : objectRefs? items with
  | none => rfl
  | some refs =>
    have hkept (p : ObjectRef → Eval Bool) : (do
        let selected ← refs.filterM fun r => return (← p r) == keep
        return Value.array (selected.map .object)) = do
          let bs ← refs.mapM p
          return .array (kept items (bs.map (· == keep))) := by
      rw [filterM_eq_mapM_kept, bind_assoc, objectRefs?_eq_some_iff.mp hrefs]
      refine bind_congr fun bs => ?_
      rw [pure_bind, kept_map]
    cases hnames : attributeNames? a with
    | none => rfl
    | some names =>
      obtain ⟨attr, name⟩ := names
      cases name with
      | none =>
        dsimp only
        rw [pure_bind]
        refine Eq.trans ?_ (hkept _)
        simp only [bind_assoc]
        rfl
      | some name =>
        dsimp only
        simp only [bind_assoc, pure_bind]
        refine bind_congr fun found => bind_congr fun extra => ?_
        refine Eq.trans ?_ (hkept _)
        simp only [bind_assoc]
        rfl

/-- Whatever the filter is called, its verdicts fail with faults of one class and leave one store. -/
theorem verdicts_alike (host : Host) (scope : Scope) (items : List Value) (a : Args) (st : Store)
    (filter filter' : String) :
    (verdicts host scope filter items a).after st = (verdicts host scope filter' items a).after st ∧
    ∀ f, (verdicts host scope filter items a).result st = .error f →
      ∃ g, (verdicts host scope filter' items a).result st = .error g ∧ f.SameClass g := by
  unfold verdicts criterion
  cases objectRefs? items with
  | none =>
    refine ⟨rfl, fun f h => ⟨_, rfl, ?_⟩⟩
    cases h
    rfl
  | some refs =>
    cases attributeNames? a with
    | none =>
      refine ⟨rfl, fun f h => ⟨_, rfl, ?_⟩⟩
      cases h
      rfl
    | some names =>
      obtain ⟨attr, name⟩ := names
      cases name <;> exact ⟨rfl, fun f h => ⟨f, h, .refl f⟩⟩

/-! ### What the arguments ask for -/

/-- The arguments name an attribute and a criterion for it: its truth if there is no other argument, or
else the test of the scope that goes by the second name, with the arguments after that. -/
inductive Asks (scope : Scope) (a : Args) (st : Store) : Text → Criterion → Store → Prop
  | truth {attr : Text} (hpositional : a.positional = [.string attr]) (hkeywords : a.keywords = []) :
      Asks scope a st attr .truth st
  | test {attr name : Text} {rest extra : List Value} {known : String} {test : Test} {st' : Store}
      (hpositional : a.positional = .string attr :: .string name :: rest)
      (hknown : name.toString? = some known) (htest : st.test? scope known = some test)
      (hextra : Leads (Args.values ⟨rest, a.keywords⟩) st extra st') :
      Asks scope a st attr (.test known test extra) st'

/-- Each item is an object, and on its attribute the criterion that the arguments ask for passes the
verdict at its place. -/
inductive Judged (host : Host) (scope : Scope) (a : Args) (st : Store) (items : List Value)
    (bs : List Bool) (st' : Store) : Prop
  | intro {refs : List ObjectRef} {attr : Text} {c : Criterion} (hitems : items = refs.map .object)
      (hasks : Asks scope a st attr c st')
      (hjudge : refs.Forall₂ (fun r b =>
        (c.judge host (((st'.slots r).lookup attr).getD .undefined)).result st' = .ok b) bs)

theorem attributeNames?_eq_none_iff {attr : Text} : attributeNames? a = some (attr, none) ↔
    a.positional = [.string attr] ∧ a.keywords = [] := by
  unfold attributeNames?
  split
  · cases hkeywords : a.keywords <;> simp_all
  · simp_all
  · simp_all

theorem attributeNames?_eq_some_iff {attr name : Text} : attributeNames? a = some (attr, some name) ↔
    ∃ rest, a.positional = .string attr :: .string name :: rest := by
  unfold attributeNames?
  split
  · cases a.keywords <;> simp_all
  · simp_all
  · simp_all

theorem leads_findTest_iff {name : Text} {known : String} {test : Test} :
    Leads (findTest scope name) st (known, test) st' ↔
      st' = st ∧ name.toString? = some known ∧ st.test? scope known = some test := by
  have hfound : (name.toString?.bind fun known => (st.test? scope known).map (known, ·)) =
      some (known, test) ↔ name.toString? = some known ∧ st.test? scope known = some test := by
    rw [Option.bind_eq_some_iff]
    constructor
    · rintro ⟨known, hknown, h⟩
      obtain ⟨test, htest, ⟨⟩⟩ := Option.map_eq_some_iff.mp h
      exact ⟨hknown, htest⟩
    · rintro ⟨hknown, htest⟩
      exact ⟨known, hknown, by rw [htest, Option.map_some]⟩
  rw [← hfound]
  constructor
  · intro h
    obtain ⟨st₀, st₁, ⟨⟨⟩, ⟨⟩⟩, h⟩ := h.bind_elim
    split at h
    · next found hsome =>
      cases h.result
      exact ⟨h.after.symm, hsome⟩
    · cases h.result
  · rintro ⟨rfl, hsome⟩
    refine Leads.bind (a := st') ⟨rfl, rfl⟩ ?_
    rw [hsome]
    exact .pure _ _

theorem leads_criterion_iff {filter : String} {attr : Text} {c : Criterion} :
    Leads (criterion scope filter a) st (attr, c) st' ↔ Asks scope a st attr c st' := by
  constructor
  · intro h
    unfold criterion at h
    split at h
    · cases h.result
    · next attr' hnames =>
      cases h.result
      cases h.after
      obtain ⟨hpositional, hkeywords⟩ := attributeNames?_eq_none_iff.mp hnames
      exact .truth hpositional hkeywords
    · next attr' name hnames =>
      obtain ⟨⟨known, test⟩, st₁, hfind, h⟩ := h.bind_elim
      obtain ⟨extra, st₂, hextra, h⟩ := h.bind_elim
      cases h.result
      cases h.after
      obtain ⟨rest, hpositional⟩ := attributeNames?_eq_some_iff.mp hnames
      obtain ⟨rfl, hknown, htest⟩ := leads_findTest_iff.mp hfind
      rw [hpositional] at hextra
      exact .test hpositional hknown htest hextra
  · intro h
    unfold criterion
    cases h with
    | truth hpositional hkeywords =>
      rw [attributeNames?_eq_none_iff.mpr ⟨hpositional, hkeywords⟩]
      exact .pure _ _
    | test hpositional hknown htest hextra =>
      rw [attributeNames?_eq_some_iff.mpr ⟨_, hpositional⟩, hpositional]
      exact (leads_findTest_iff.mpr ⟨rfl, hknown, htest⟩).bind (hextra.bind (.pure _ _))

/-! ### The verdicts on the items -/

theorem leads_mapM_iff {p : α → Eval β} (hp : ∀ a, Respects Eq (p a)) {as : List α} {bs : List β} :
    Leads (as.mapM p) st bs st' ↔ st' = st ∧ as.Forall₂ (fun a b => (p a).result st = .ok b) bs := by
  induction as generalizing bs st' with
  | nil =>
    rw [List.mapM_nil, List.forall₂_nil_left_iff]
    constructor
    · rintro ⟨⟨⟩, ⟨⟩⟩
      exact ⟨rfl, rfl⟩
    · rintro ⟨rfl, rfl⟩
      exact .pure _ _
  | cons a as ih =>
    rw [List.mapM_cons, List.forall₂_cons_left_iff]
    constructor
    · intro h
      obtain ⟨b, st₁, hb, hrest⟩ := h.bind_elim
      obtain ⟨bs, st₂, hbs, hpure⟩ := hrest.bind_elim
      obtain rfl : st₁ = st := hb.after.symm.trans (hp a st).symm
      obtain ⟨rfl, hbs⟩ := ih.mp hbs
      cases hpure.result
      exact ⟨hpure.after.symm, b, bs, hb.result, hbs, rfl⟩
    · rintro ⟨rfl, b, bs, hb, hrest, rfl⟩
      exact ((hp a).leads hb).bind ((ih.mpr ⟨rfl, hrest⟩).bind (.pure _ _))

theorem Criterion.respects_judge (c : Criterion) (v : Value) : Respects Eq (c.judge host v) := by
  cases c with
  | truth => exact .truthy v
  | test known t extra => exact Looks.runTest host known t v extra

theorem leads_verdicts_iff {filter : String} :
    Leads (verdicts host scope filter items a) st bs st' ↔ Judged host scope a st items bs st' := by
  have hitem (attr : Text) (c : Criterion) (r : ObjectRef) :
      Respects Eq (do c.judge host (← attributeOf attr r)) :=
    .bind (.bind (.slotsOf r) fun _ => .pure _) fun v => c.respects_judge v
  constructor
  · intro h
    unfold verdicts at h
    split at h
    · cases h.result
    · next refs hrefs =>
      obtain ⟨⟨attr, c⟩, st₁, hcriterion, h⟩ := h.bind_elim
      obtain ⟨rfl, hjudge⟩ := (leads_mapM_iff (hitem attr c)).mp h
      exact ⟨objectRefs?_eq_some_iff.mp hrefs, leads_criterion_iff.mp hcriterion, hjudge⟩
  · rintro ⟨hitems, hasks, hjudge⟩
    unfold verdicts
    rw [objectRefs?_eq_some_iff.mpr hitems]
    exact (leads_criterion_iff.mpr hasks).bind ((leads_mapM_iff (hitem _ _)).mpr ⟨rfl, hjudge⟩)

theorem Judged.length_eq (h : Judged host scope a st items bs st') : bs.length = items.length := by
  obtain ⟨rfl, -, hjudge⟩ := h
  rw [List.length_map, hjudge.length_eq]

/-! ### The two filters -/

theorem selectattr_eq : applyFilter host scope a.keywords "selectattr" a.positional (.array items) = do
    let bs ← verdicts host scope "selectattr" items a
    return .array (kept items bs) := by
  rw [applyFilter_of_ne_map (by decide)]
  refine (selectByAttribute_eq "selectattr" true).trans (bind_congr fun bs => ?_)
  simp

theorem rejectattr_eq : applyFilter host scope a.keywords "rejectattr" a.positional (.array items) = do
    let bs ← verdicts host scope "rejectattr" items a
    return .array (kept items (bs.map not)) := by
  rw [applyFilter_of_ne_map (by decide)]
  refine (selectByAttribute_eq "rejectattr" false).trans (bind_congr fun bs => ?_)
  simp

/-- `selectattr` and `rejectattr` split an array by the verdicts on the attribute of each item. Where
there are verdicts, the one keeps the items that pass and the other those that fail, both in their
order, and together these are the array. Where there are none, both fail with faults of one class. -/
theorem selectattr_rejectattr_split (host : Host) (scope : Scope) (items : List Value) (a : Args)
    (st : Store) :
    let select := applyFilter host scope a.keywords "selectattr" a.positional (.array items)
    let reject := applyFilter host scope a.keywords "rejectattr" a.positional (.array items)
    (∀ bs st', Judged host scope a st items bs st' → bs.length = items.length ∧
      Leads select st (.array (kept items bs)) st' ∧
      Leads reject st (.array (kept items (bs.map not))) st' ∧
      merged bs (kept items bs) (kept items (bs.map not)) = items) ∧
    ((∃ bs st', Judged host scope a st items bs st') ∨
      ∃ f g, select.result st = .error f ∧ reject.result st = .error g ∧ f.SameClass g ∧
        select.after st = reject.after st) := by
  intro select reject
  have hselect : select = _ := selectattr_eq
  have hreject : reject = _ := rejectattr_eq
  rw [hselect, hreject]
  refine ⟨fun bs st' h => ⟨h.length_eq, (leads_verdicts_iff.mpr h).bind (.pure _ _),
    (leads_verdicts_iff.mpr h).bind (.pure _ _), merged_kept h.length_eq⟩, ?_⟩
  obtain ⟨hafter, hclass⟩ := verdicts_alike host scope items a st "selectattr" "rejectattr"
  cases hresult : (verdicts host scope "selectattr" items a).result st with
  | ok bs => exact .inl ⟨bs, _, leads_verdicts_iff.mp (.of_result hresult)⟩
  | error f =>
    obtain ⟨g, hg, hfg⟩ := hclass f hresult
    refine .inr ⟨f, g, ?_, ?_, hfg, ?_⟩
    · rw [result_bind, hresult]
    · rw [result_bind, hg]
    · rw [after_bind, after_bind, hresult, hg]
      exact hafter

/-- An object that lacks the attribute is tested as having an undefined one. -/
theorem selectattr_rejectattr_missing_attribute :
    let st := (Store.initial.pushObject [("a", .null)]).pushObject []
    let r : ObjectRef := Store.initial.objects.size
    let items : List Value := [.object r, .object (r + 1)]
    let a : Args := ⟨[.string "a", .string "defined"], []⟩
    Leads (applyFilter Host.none ⟨0, []⟩ a.keywords "selectattr" a.positional (.array items)) st
        (.array [.object r]) st ∧
      Leads (applyFilter Host.none ⟨0, []⟩ a.keywords "rejectattr" a.positional (.array items)) st
        (.array [.object (r + 1)]) st := by
  intro st r items a
  have hasks : Asks ⟨0, []⟩ a st "a" (.test "defined" (.builtin .defined) []) st :=
    .test rfl (by decide) rfl (.pure _ _)
  have hitems : items = [r, r + 1].map .object := rfl
  have hjudged : Judged Host.none ⟨0, []⟩ a st items [true, false] st :=
    .intro hitems hasks (.cons rfl (.cons rfl .nil))
  have hsplit := (selectattr_rejectattr_split Host.none ⟨0, []⟩ items a st).1 _ _ hjudged
  exact ⟨hsplit.2.1, hsplit.2.2.1⟩

end Eval
end ChatTemplate
