import ChatTemplate.Proofs.Eval.Outcome
import Mathlib.Order.Defs.Unbundled

/-!
# What evaluations do to the store

`Eval.Respects I m`: whatever store `m` starts from, the one it leaves is related to it by `I`. For a
preorder this goes through sequencing, and through the questions to the store, so that it is enough
to look at the steps that change it.
-/

namespace ChatTemplate
variable {α β : Type}

/-- Whatever the store, the one that `m` leaves is related to it by `I`. -/
def Eval.Respects (I : Store → Store → Prop) (m : Eval α) : Prop := ∀ st, I st (m.after st)

namespace Eval.Respects
variable {I J : Store → Store → Prop}

theorem mono {m : Eval α} (hm : Respects I m) (h : ∀ st st', I st st' → J st st') :
    Respects J m :=
  fun st => h _ _ (hm st)

section
variable [IsPreorder Store I]

theorem pure (a : α) : Respects I (Pure.pure a) := by
  intro st
  rw [after_pure]
  exact Std.Refl.refl st

theorem throw (f : Fault) : Respects I (throw f : Eval α) := by
  intro st
  rw [after_throw]
  exact Std.Refl.refl st

theorem fail (c : Cause) : Respects I (Eval.fail c : Eval α) := throw _

theorem get : Respects I (MonadState.get : Eval Store) := by
  intro st
  rw [after_get]
  exact Std.Refl.refl st

theorem bind {m : Eval α} {f : α → Eval β} (hm : Respects I m)
    (hf : ∀ a, Respects I (f a)) : Respects I (m >>= f) := by
  intro st
  rw [after_bind]
  cases m.result st with
  | ok a => exact IsTrans.trans _ _ _ (hm st) (hf a _)
  | error e => exact hm st

theorem fail_bind (c : Cause) {f : α → Eval β} : Respects I (Eval.fail c >>= f) :=
  fun st => Std.Refl.refl st

theorem mapM (f : α → Eval β) (hf : ∀ a, Respects I (f a)) (as : List α) :
    Respects I (as.mapM f) := by
  induction as with
  | nil => rw [List.mapM_nil]; exact .pure _
  | cons a as ih =>
    rw [List.mapM_cons]
    exact (hf a).bind fun b => ih.bind fun bs => .pure _

omit [IsPreorder Store I] in
theorem rethrow {m : Eval α} (g : Fault → Fault) (hm : Respects I m) :
    Respects I (tryCatch m fun f => MonadExcept.throw (g f)) := by
  intro st
  rw [after_tryCatch_throw]
  exact hm st

theorem finite (question : Store → Option α) : Respects I (Eval.finite question) := by
  unfold Eval.finite
  refine bind get fun st => ?_
  split
  · exact .pure _
  · exact .throw _

theorem datum (v : Value) : Respects I (Eval.datum v) := finite _

theorem textOf (v : Value) : Respects I (Eval.textOf v) :=
  (datum v).bind fun _ => .pure _

theorem equal (v w : Value) : Respects I (Eval.equal v w) := finite _

theorem truthy (v : Value) : Respects I (Eval.truthy v) :=
  bind get fun _ => .pure _

theorem slotsOf (r : ObjectRef) : Respects I (Eval.slotsOf r) :=
  bind get fun _ => .pure _

end
end Eval.Respects

end ChatTemplate
