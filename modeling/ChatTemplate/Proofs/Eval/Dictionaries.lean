import ChatTemplate.Proofs.Eval.Tame
import ChatTemplate.Proofs.Store.Equality

/-!
# Objects stay dictionaries

The laws of equality ask that no object has two slots of one name (`Store.Dictionaries`). Objects are
put together name by name, where a template writes them down, where the host hands over a mapping and
where a loop binds `loop`; a namespace is made of the keywords of a call, which are put together in the
same way. So no evaluation leaves an object with two slots of one name (`Eval.keeps_dictionaries`).
-/

namespace ChatTemplate
variable {host : Host} {Q : Fault → Prop}

/-! ### What is tame where anything may fail -/

theorem Expr.tame_of_forall (hQ : ∀ f, Q f) (e : Expr) : e.Tame Q := by
  cases e with
  | int w | float w => exact .inr (hQ _)
  | filter e f => exact .inr fun _ => hQ _
  | _ => exact trivial

theorem Stmt.tame_of_forall (hQ : ∀ f, Q f) (inside : Bool) (s : Stmt) : s.Tame Q inside := by
  cases s with
  | control signal w => exact .inr (hQ _)
  | filterBlock f body => exact .inr fun _ => hQ _
  | _ => exact trivial

theorem Stmt.holds_of_forall (hQ : ∀ f, Q f) (inside : Bool) (s : Stmt) :
    s.Holds (Expr.Tame Q) (Stmt.Tame Q) inside :=
  Stmt.holds_of_blocks (fun _ _ _ x _ => Stmt.tame_of_forall hQ x.1 x.2)
    (Expr.tame_of_forall hQ) inside s (Stmt.tame_of_forall hQ inside s)

theorem Function.tame_of_forall (hQ : ∀ f, Q f) (f : Function) : f.Tame host Q := by
  cases f with
  | defined name params body =>
    exact ⟨fun _ _ e _ => Expr.all_of_forall (Expr.tame_of_forall hQ) e,
      fun s _ => Stmt.holds_of_forall hQ false s⟩
  | caller params body home => exact fun s _ => Stmt.holds_of_forall hQ false s
  | host f => exact ⟨hQ _, fun f _ => hQ f⟩
  | _ => exact trivial

/-! ### The contract -/

namespace Contract

/-- No object has two slots of one name; anything may fail. -/
def dictionaries : Contract where
  store := Store.Dictionaries
  fault _ := True
  slots s := s.names.Nodup

/-- Functions, frames and bindings are no part of an object. -/
theorem dictionaries_liberal (host : Host) : dictionaries.Liberal host where
  toClosed := .of_forall fun _ => trivial
  distinct _ hslots _ := hslots
  pushObject _ _ hslots hst := hst.pushObject hslots
  pushMethod _ _ _ hst := hst
  ordinary _ _ := trivial
  known _ _ := trivial
  endless := trivial
  tests := .inl ⟨trivial, fun _ _ => trivial⟩
  pushFrame _ _ hst := hst
  bind _ _ _ _ hst := hst
  value _ := trivial
  function _ _ _ := Function.tame_of_forall (fun _ => trivial) _
  pushFunction _ _ _ hst := hst
  putSlot _ r name v hst := hst.putSlot r name v
  locate _ _ _ := trivial

end Contract

namespace Eval

/-- Whatever is evaluated, no object gets two slots of one name. A call gives no keyword twice, which
is what it takes for this to be true of functions, too. -/
theorem keeps_dictionaries (host : Host) (depth : Nat) {st : Store} (h : st.Dictionaries) :
    let ev := Evaluator.within host depth
    (∀ (t : Template) vars keywords, ((t.render host depth vars keywords).after st).Dictionaries) ∧
      (∀ e scope, ((ev.expr e scope).after st).Dictionaries) ∧
      (∀ s scope, ((ev.stmt s scope).after st).Dictionaries) ∧
      (∀ as scope a, (args ev scope as .none).result st = .ok a → a.keywords.names.Nodup) ∧
      ∀ v a scope, a.keywords.names.Nodup →
        ((callValue ev host v a scope).after st).Dictionaries := by
  intro ev
  have hc := Contract.dictionaries_liberal host
  have hany (f : Fault) : Contract.dictionaries.fault f := trivial
  have hev : ev.Tame .dictionaries := Evaluator.within_tame hc depth
  have hexpr (e : Expr) : e.All (Expr.Tame Contract.dictionaries.fault) :=
    Expr.all_of_forall (Expr.tame_of_forall hany) e
  refine ⟨fun t vars keywords => ?_, fun e scope => (hev.expr e scope (hexpr e) st h).1,
    fun s scope => ?_, fun as scope a ha => ?_, fun v a scope ha => ?_⟩
  · have hrender : Meets .dictionaries (t.render host depth vars keywords) :=
      Tame.render hc depth (fun s _ => Stmt.holds_of_forall hany false s)
        (.inl (hc.toOpen ⟨trivial, fun _ _ => trivial⟩))
    exact (hrender st h).1
  · exact (hev.stmt false s scope (Stmt.holds_of_forall hany false s) st h).1
  · have hargs : Returns .dictionaries (fun a => a.keywords.names.Nodup) (args ev scope as .none) :=
      Tame.args hc hev scope (fun a _ => hexpr a.value) .none List.nodup_nil
    have hresult := (hargs st h).2
    rwa [ha] at hresult
  · exact (Tame.callValue hc hev v ha scope st h).1

end Eval
end ChatTemplate
