import ChatTemplate.Eval.Basic

/-!
# Outcomes of evaluations

`Eval.result` and `Eval.after` are the two halves of what an evaluation does to a store: what it
answers, and the store it leaves, also where it fails. The equations of this file reduce both to
those of the parts.
-/

namespace ChatTemplate
namespace Eval
variable {α β : Type}

/-- What an evaluation answers in the store `st`. -/
def result (m : Eval α) (st : Store) : Except Fault α := (m.run.run st).1

/-- The store that an evaluation leaves, whether it answers or fails. -/
def after (m : Eval α) (st : Store) : Store := (m.run.run st).2

@[simp] theorem result_pure (a : α) (st : Store) : (pure a : Eval α).result st = .ok a := rfl

@[simp] theorem after_pure (a : α) (st : Store) : (pure a : Eval α).after st = st := rfl

@[simp] theorem result_throw (f : Fault) (st : Store) :
    (throw f : Eval α).result st = .error f := rfl

@[simp] theorem after_throw (f : Fault) (st : Store) : (throw f : Eval α).after st = st := rfl

@[simp] theorem result_get (st : Store) : (get : Eval Store).result st = .ok st := rfl

@[simp] theorem after_get (st : Store) : (get : Eval Store).after st = st := rfl

@[simp] theorem result_modifyGet (f : Store → α × Store) (st : Store) :
    (modifyGet f : Eval α).result st = .ok (f st).1 := rfl

@[simp] theorem after_modifyGet (f : Store → α × Store) (st : Store) :
    (modifyGet f : Eval α).after st = (f st).2 := rfl

theorem result_bind (m : Eval α) (f : α → Eval β) (st : Store) :
    (m >>= f).result st =
      match m.result st with
      | .ok a => (f a).result (m.after st)
      | .error e => .error e := by
  simp only [after, result, ExceptT.run_bind, StateT.run_bind]
  rcases m.run.run st with ⟨r, st'⟩
  cases r <;> rfl

theorem after_bind (m : Eval α) (f : α → Eval β) (st : Store) :
    (m >>= f).after st =
      match m.result st with
      | .ok a => (f a).after (m.after st)
      | .error _ => m.after st := by
  simp only [after, result, ExceptT.run_bind, StateT.run_bind]
  rcases m.run.run st with ⟨r, st'⟩
  cases r <;> rfl

theorem result_bind_ok {m : Eval α} {f : α → Eval β} {st : Store} {a : α}
    (h : m.result st = .ok a) : (m >>= f).result st = (f a).result (m.after st) := by
  rw [result_bind, h]

theorem after_bind_ok {m : Eval α} {f : α → Eval β} {st : Store} {a : α}
    (h : m.result st = .ok a) : (m >>= f).after st = (f a).after (m.after st) := by
  rw [after_bind, h]

theorem result_bind_eq_ok {m : Eval α} {f : α → Eval β} {st : Store} {b : β}
    (h : (m >>= f).result st = .ok b) :
    ∃ a, m.result st = .ok a ∧ (f a).result (m.after st) = .ok b := by
  rw [result_bind] at h
  cases hm : m.result st with
  | ok a =>
    rw [hm] at h
    exact ⟨a, rfl, h⟩
  | error f =>
    rw [hm] at h
    cases h

theorem result_finite_of_some {question : Store → Option α} {st : Store} {a : α}
    (h : question st = some a) : (finite question).result st = .ok a := by
  unfold finite
  rw [result_bind_ok (result_get st), after_get, h]
  rfl

theorem result_finite_of_none {question : Store → Option α} {st : Store}
    (h : question st = none) : (finite question).result st = .error .endless := by
  unfold finite
  rw [result_bind_ok (result_get st), after_get, h]
  rfl

/-- From the store `st` the evaluation answers `a` and leaves `st'`. -/
structure Leads (m : Eval α) (st : Store) (a : α) (st' : Store) : Prop where
  result : m.result st = .ok a
  after : m.after st = st'

namespace Leads
variable {m : Eval α} {f : α → Eval β} {st st' st'' : Store} {a : α} {b : β}

theorem of_result (h : m.result st = .ok a) : Leads m st a (m.after st) := ⟨h, rfl⟩

theorem pure (a : α) (st : Store) : Leads (Pure.pure a) st a st := ⟨rfl, rfl⟩

theorem bind (hm : Leads m st a st') (hf : Leads (f a) st' b st'') : Leads (m >>= f) st b st'' where
  result := by rw [result_bind_ok hm.result, hm.after, hf.result]
  after := by rw [after_bind_ok hm.result, hm.after, hf.after]

theorem bind_elim (h : Leads (m >>= f) st b st') :
    ∃ a st₁, Leads m st a st₁ ∧ Leads (f a) st₁ b st' := by
  obtain ⟨a, hm, hf⟩ := result_bind_eq_ok h.result
  exact ⟨a, m.after st, .of_result hm, hf, by rw [← h.after, after_bind_ok hm]⟩

end Leads

/-- A handler that throws again leaves the store to what failed. -/
theorem after_tryCatch_throw (m : Eval α) (g : Fault → Fault) (st : Store) :
    (tryCatch m fun f => throw (g f)).after st = m.after st := by
  unfold after ExceptT.run StateT.run
  simp only [tryCatch, tryCatchThe, MonadExceptOf.tryCatch, ExceptT.tryCatch, ExceptT.mk, Bind.bind,
    StateT.bind]
  rcases m st with ⟨r, st'⟩
  cases r <;> rfl

theorem result_tryCatch_throw (m : Eval α) (g : Fault → Fault) (st : Store) :
    (tryCatch m fun f => throw (g f)).result st = (m.result st).mapError g := by
  unfold result ExceptT.run StateT.run
  simp only [tryCatch, tryCatchThe, MonadExceptOf.tryCatch, ExceptT.tryCatch, ExceptT.mk, Bind.bind,
    StateT.bind]
  rcases m st with ⟨r, st'⟩
  cases r <;> rfl

theorem leads_tryCatch_throw {m : Eval α} {g : Fault → Fault} {st st' : Store} {a : α} :
    Leads (tryCatch m fun f => throw (g f)) st a st' ↔ Leads m st a st' := by
  constructor
  · rintro ⟨hresult, hafter⟩
    rw [after_tryCatch_throw] at hafter
    rw [result_tryCatch_throw] at hresult
    cases hm : m.result st with
    | ok b =>
      rw [hm] at hresult
      exact ⟨hm.trans hresult, hafter⟩
    | error f =>
      rw [hm] at hresult
      cases hresult
  · rintro ⟨hresult, hafter⟩
    exact ⟨by rw [result_tryCatch_throw, hresult]; rfl, by rw [after_tryCatch_throw, hafter]⟩

end Eval
end ChatTemplate
