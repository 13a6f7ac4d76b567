import ChatTemplate.Eval.Filters
import ChatTemplate.Proofs.Eval.Looking

/-!
# Steps that leave the store as it is

What the questions to the store and the handling of arguments lead to, as `Eval.Leads` from a store
to itself, so that they can be put together to operations.
-/

namespace ChatTemplate

/-- Is something given by this name that is true? -/
def Store.flag (st : Store) (picked : Slots String Value) (name : String) : Bool :=
  st.truthy ((picked.lookup name).getD (.bool false))

namespace Eval
variable {α : Type} {st : Store}

/-- An evaluation that leaves the store as it is. -/
theorem Respects.leads {m : Eval α} (hm : Respects Eq m) {a : α} (h : m.result st = .ok a) :
    Leads m st a st :=
  ⟨h, (hm st).symm⟩

/-! ### Questions -/

theorem leads_finite {question : Store → Option α} {a : α} (h : question st = some a) :
    Leads (finite question) st a st :=
  (Respects.finite question).leads (result_finite_of_some h)

theorem run_finite_congr {question question' : Store → Option α} (h : question st = question' st) :
    (finite question).run.run st = (finite question').run.run st := by
  refine Prod.ext ?_ ((Respects.finite (I := Eq) _ st).symm.trans (Respects.finite (I := Eq) _ st))
  cases hanswer : question' st with
  | some a =>
    exact (result_finite_of_some (h.trans hanswer)).trans (result_finite_of_some hanswer).symm
  | none =>
    exact (result_finite_of_none (h.trans hanswer)).trans (result_finite_of_none hanswer).symm

theorem leads_datum {v : Value} {d : Datum} (h : st.datum? v = some d) : Leads (datum v) st d st :=
  leads_finite h

theorem leads_textOf_string (s : Text) (st : Store) : Leads (textOf (.string s)) st s st :=
  (leads_datum (d := .string s) rfl).bind (.pure _ _)

/-! ### Arguments -/

theorem leads_pick {a : Args} {method : String} {params : List String} {picked : Slots String Value}
    (h : (a.pick method params).result st = .ok picked) :
    Leads (a.pick method params) st picked st :=
  (Looks.pick a method params).leads h

theorem leads_flag (picked : Slots String Value) (name : String) (st : Store) :
    Leads (truthy ((picked.lookup name).getD (.bool false))) st (st.flag picked name) st :=
  ⟨rfl, rfl⟩

theorem leads_expectWidth {n : Int} (hn : -maxSize - 1 ≤ n ∧ n ≤ maxSize) :
    Leads (expectWidth n) st () st := by
  rw [expectWidth, if_neg (by simp; omega)]
  exact .pure () st

/-! ### Filters -/

/-- Every filter but `map` is applied as it is. -/
theorem applyFilter_of_ne_map {name : Text} (hname : name.toString? ≠ some "map") (host : Host)
    (scope : Scope) (v : Value) (a : Args) :
    applyFilter host scope a.keywords name a.positional v = plainFilter host scope name v a := by
  rw [applyFilter]
  exact fun _ hmap _ => hname hmap

end Eval
end ChatTemplate
