import ChatTemplate.Eval.Binding
import ChatTemplate.Proofs.Eval.Respects
import Mathlib.Tactic.SplitIfs

/-!
# What a target binds

`Eval.Unpacks` says which bindings a value makes that goes to a target of names, and `Store.bindEach` what
they leave. Binding a value does just that, or fails (`Eval.leads_bindTo_iff`).
-/

namespace ChatTemplate

namespace Store

/-- The store in which names are bound in one frame, one after the other. -/
def bindEach (st : Store) (own : FrameRef) (bindings : Slots String Value) : Store :=
  bindings.foldl (fun st (name, v) => st.bind own name v) st

end Store

namespace Eval
variable {scope : Scope} {st st' : Store}

/-! ### Names -/

theorem leads_expectName_iff {place : String} {e : Expr} {name : String} :
    Leads (expectName place e) st name st' ↔ st' = st ∧ ∃ w, e = .name w ∧ name = w.text := by
  constructor
  · intro h
    cases e with
    | name w =>
      cases h.result
      exact ⟨h.after.symm, w, rfl, rfl⟩
    | _ => cases h.result
  · rintro ⟨rfl, w, rfl, rfl⟩
    exact .pure _ _

theorem leads_expectNames_iff {place : String} {items : List Expr} {names : List String} :
    Leads (items.mapM (expectName place)) st names st' ↔
      st' = st ∧ ∃ ws : List Word, items = ws.map .name ∧ names = ws.map Word.text := by
  induction items generalizing names st st' with
  | nil =>
    constructor
    · intro h
      cases h.result
      exact ⟨h.after.symm, [], rfl, rfl⟩
    · rintro ⟨rfl, ws, hws, rfl⟩
      cases List.map_eq_nil_iff.mp hws.symm
      exact .pure _ _
  | cons e items ih =>
    rw [List.mapM_cons]
    constructor
    · intro h
      obtain ⟨name, st₁, hname, h⟩ := h.bind_elim
      obtain ⟨names, st₂, hnames, h⟩ := h.bind_elim
      obtain ⟨rfl, w, rfl, rfl⟩ := leads_expectName_iff.mp hname
      obtain ⟨rfl, ws, rfl, rfl⟩ := ih.mp hnames
      cases h.result
      exact ⟨h.after.symm, w :: ws, rfl, rfl⟩
    · rintro ⟨rfl, ws, hws, rfl⟩
      cases ws with
      | nil => cases hws
      | cons w ws =>
        obtain ⟨rfl, rfl⟩ := List.cons.inj hws
        exact (leads_expectName_iff.mpr ⟨rfl, w, rfl, rfl⟩).bind
          ((ih.mpr ⟨rfl, ws, rfl, rfl⟩).bind (.pure _ _))

theorem after_binder (target : Target) (st : Store) : (binder target).after st = st := by
  have hname (e : Expr) : Respects Eq (expectName "unpacking" e) := by
    cases e with
    | name w => exact .pure _
    | _ => exact .fail _
  have hbinder : Respects Eq (binder target) := by
    cases target with
    | name w => exact .pure _
    | tuple items => exact (Respects.mapM _ hname items).bind fun _ => .pure _
  exact (hbinder st).symm

/-! ### Bindings -/

/-- A value goes to a target of names: it is bound itself, or its items are, of which there are as many
as names. -/
inductive Unpacks (v : Value) : Target → Slots String Value → Prop
  | name (w : Word) : Unpacks v (.name w) [(w.text, v)]
  | tuple {ws : List Word} {items : List Value} (hv : v = .array items)
      (hlength : ws.length = items.length) :
      Unpacks v (.tuple (ws.map .name)) ((ws.map Word.text).zip items)

theorem leads_bindAll_bindEach (scope : Scope) (names : List String) (items : List Value)
    (st : Store) :
    Leads (bindAll scope names items) st () (st.bindEach scope.inner (names.zip items)) := by
  unfold bindAll
  generalize names.zip items = bindings
  induction bindings generalizing st with
  | nil => exact .pure () st
  | cons e bindings ih => exact Leads.bind (m := bind scope e.1 e.2) ⟨rfl, rfl⟩ (ih _)

/-- Once its names are known, a target is given a value if and only if that binds it. -/
theorem leads_bindTo_iff {target : Target} {b : Binder} {v : Value} {st₀ : Store}
    (hb : (binder target).result st₀ = .ok b) :
    Leads (bindTo scope b v) st () st' ↔
      ∃ bindings, Unpacks v target bindings ∧ st' = st.bindEach scope.inner bindings := by
  cases target with
  | name w =>
    cases hb
    constructor
    · intro h
      exact ⟨_, .name w, h.after.symm⟩
    · rintro ⟨_, ⟨⟩, rfl⟩
      exact ⟨rfl, rfl⟩
  | tuple es =>
    obtain ⟨names, hnames, hb⟩ := result_bind_eq_ok hb
    cases hb
    obtain ⟨-, ws, rfl, rfl⟩ := leads_expectNames_iff.mp (.of_result hnames)
    constructor
    · intro h
      cases v with
      | array items =>
        unfold bindTo at h
        dsimp only at h
        split_ifs at h with hfew hmany
        · cases h.result
        · cases h.result
        · refine ⟨_, .tuple rfl (by simp at hfew hmany; omega), ?_⟩
          rw [← h.after, (leads_bindAll_bindEach _ _ _ _).after]
      | _ => cases h.result
    · rintro ⟨bindings, hunpacks, rfl⟩
      generalize htarget : ws.map Expr.name = es at hunpacks
      cases hunpacks with
      | tuple hv hlength =>
        obtain rfl := (List.map_inj_right fun _ _ => Expr.name.inj).mp htarget
        subst hv
        unfold bindTo
        dsimp only
        rw [if_neg (by simp; omega), if_neg (by simp; omega)]
        exact leads_bindAll_bindEach _ _ _ _

end Eval
end ChatTemplate
