import ChatTemplate.Proofs.Eval.Primitives
import ChatTemplate.Template

/-!
# What binding names does and fails with

Scopes are opened and names bound in frames, and nothing else in the store changes. So these
operations keep to every contract that does not mind frames (`Contract.Scoped`); what they fail with
are errors of the template.
-/

namespace ChatTemplate.Contract
open Eval (Meets Returns)

/-- The contract holds whatever scopes there are and whatever is bound in them. -/
structure Scoped (c : Contract) : Prop where
  pushFrame : ∀ st vars, c.store st → c.store (st.pushFrame vars)
  bind : ∀ st r name v, c.store st → c.store (st.bind r name v)

variable {c : Contract}

namespace Scoped
variable (hs : c.Scoped)
include hs

theorem innerScope (s : Scope) : Meets c (Eval.innerScope s) :=
  .modifyGet fun st hst => ⟨trivial, hs.pushFrame st [] hst⟩

theorem rootScope : Meets c Eval.rootScope :=
  .modifyGet fun st hst => ⟨trivial, hs.pushFrame st _ hst⟩

theorem bindName (s : Scope) (name : String) (v : Value) : Meets c (Eval.bind s name v) :=
  .modify fun st hst => hs.bind st s.inner name v hst

theorem bindAll (scope : Scope) (names : List String) (items : List Value) :
    Meets c (Eval.bindAll scope names items) :=
  .forM (fun (name, v) => hs.bindName scope name v) _

end Scoped

namespace Lenient
variable {host : Host} (hc : c.Lenient host)
include hc

theorem bindTo (hs : c.Scoped) (scope : Scope) (b : Binder) (v : Value) :
    Meets c (Eval.bindTo scope b v) := by
  unfold Eval.bindTo
  cases b with
  | one name => exact hs.bindName scope name v
  | many names =>
    cases v with
    | array items =>
      dsimp only
      split
      · exact hc.fail rfl
      split
      · exact hc.fail rfl
      · exact hs.bindAll scope names items
    | _ => exact hc.fail rfl

theorem expectName (place : String) (e : Expr) : Meets c (Eval.expectName place e) := by
  cases e with
  | name w => exact .pure trivial
  | _ => exact hc.fail rfl

theorem binder (target : Target) : Meets c (Eval.binder target) := by
  cases target with
  | name w => exact .pure trivial
  | tuple items => exact (Meets.mapM fun e _ => hc.expectName _ e).bind fun _ => .pure trivial

theorem callerParam (a : Arg) : Meets c (Eval.callerParam a) := by
  cases a with
  | positional e => exact hc.expectName _ e
  | _ => exact hc.fail rfl

theorem loopItems (v : Value) : Meets c (Eval.loopItems v) := by
  cases v with
  | array items => exact .pure trivial
  | object r => exact (hc.slotsOf r).bind fun _ _ => .pure trivial
  | _ => exact hc.fail rfl

theorem declareAll (hs : c.Scoped) (hvalue : ∀ v, c.value v) (s : Scope)
    {vars : List (String × HostValue)} (hvars : c.Open host ∨ ∀ e ∈ vars, e.2.isData) :
    Meets c (Template.declareAll s vars) := by
  induction vars with
  | nil => exact .pure trivial
  | cons e vars ih =>
    obtain ⟨name, h⟩ := e
    have hdeclare : Meets c (do let _ ← Eval.declare s name h) := by
      refine Meets.bind (m := Eval.declare s name h) ?_ fun _ => .pure trivial
      unfold Eval.declare
      refine Returns.get.bind fun st _ => ?_
      split
      · exact hc.fail_bind rfl
      refine (hc.ofHost hvalue h ?_).bind fun v => ?_
      · exact hvars.imp_right fun hdata => hdata _ List.mem_cons_self
      · exact (hs.bindName s name v).bind fun _ => .pure trivial
    have hrest := ih (hvars.imp_right fun hdata e he => hdata e (List.mem_cons_of_mem _ he))
    exact hdeclare.bind fun _ => hrest

end Lenient
end ChatTemplate.Contract
