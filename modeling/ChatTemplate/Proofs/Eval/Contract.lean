import ChatTemplate.Proofs.Eval.Outcome

/-!
# What evaluations keep to

A `Contract` says what is true of every store, every failure and every value, and of what a new object
holds. `Eval.Returns c R m`: started in a store of the contract, `m` leaves one, what it answers
satisfies `R`, and what it fails with is allowed. This goes through sequencing (`Returns.bind`), so
that each operation is looked at once, whatever the contract is for.
-/

namespace ChatTemplate
variable {α β : Type}

structure Contract where
  /-- What is true of every store. -/
  store : Store → Prop
  /-- What an evaluation may fail with. -/
  fault : Fault → Prop
  /-- What is true of every value. -/
  value : Value → Prop := fun _ => True
  /-- What a new object may hold. -/
  slots : Slots Text Value → Prop := fun _ => True

namespace Eval
variable {c : Contract} {R S : α → Prop} {m : Eval α}

/-- The evaluation keeps to the contract, and its answers satisfy `R`. -/
def Returns (c : Contract) (R : α → Prop) (m : Eval α) : Prop :=
  ∀ st, c.store st → c.store (m.after st) ∧
    match m.result st with
    | .ok a => R a
    | .error f => c.fault f

/-- The evaluation keeps to the contract. -/
abbrev Meets (c : Contract) (m : Eval α) : Prop := Returns c (fun _ => True) m

/-- The evaluation keeps to the contract, and answers a value of it. -/
abbrev Gives (c : Contract) (m : Eval Value) : Prop := Returns c c.value m

namespace Returns

theorem mono (h : Returns c R m) (himp : ∀ a, R a → S a) : Returns c S m := by
  intro st hst
  obtain ⟨hafter, hresult⟩ := h st hst
  refine ⟨hafter, ?_⟩
  cases hm : m.result st with
  | ok a =>
    rw [hm] at hresult
    exact himp a hresult
  | error f =>
    rw [hm] at hresult
    exact hresult

theorem meets (h : Returns c R m) : Meets c m := h.mono fun _ _ => trivial

theorem pure {a : α} (h : R a) : Returns c R (Pure.pure a) := fun _ hst => ⟨hst, h⟩

theorem throw {f : Fault} (h : c.fault f) : Returns c R (throw f) := fun _ hst => ⟨hst, h⟩

theorem get : Returns c c.store (MonadState.get : Eval Store) := fun _ hst => ⟨hst, hst⟩

theorem bind {f : α → Eval β} {S : β → Prop} (hm : Returns c R m)
    (hf : ∀ a, R a → Returns c S (f a)) : Returns c S (m >>= f) := by
  intro st hst
  obtain ⟨hafter, hresult⟩ := hm st hst
  rw [after_bind, result_bind]
  cases hm' : m.result st with
  | ok a =>
    rw [hm'] at hresult
    exact hf a hresult _ hafter
  | error e =>
    rw [hm'] at hresult
    exact ⟨hafter, hresult⟩

theorem map {f : α → β} {S : β → Prop} (hm : Returns c R m) (hf : ∀ a, R a → S (f a)) :
    Returns c S (f <$> m) := by
  rw [map_eq_pure_bind]
  exact hm.bind fun a ha => .pure (hf a ha)

theorem mapM {f : α → Eval β} {S : β → Prop} {as : List α} (hf : ∀ a ∈ as, Returns c S (f a)) :
    Returns c (fun bs => ∀ b ∈ bs, S b) (as.mapM f) := by
  induction as with
  | nil =>
    rw [List.mapM_nil]
    exact .pure nofun
  | cons a as ih =>
    rw [List.mapM_cons]
    have hrest := ih fun a' ha' => hf a' (List.mem_cons_of_mem a ha')
    refine (hf a List.mem_cons_self).bind fun b hb => hrest.bind fun bs hbs => .pure ?_
    exact List.forall_mem_cons.mpr ⟨hb, hbs⟩

/-- What is left of a list was in it. -/
theorem filterM {p : α → Eval Bool} (hp : ∀ a, Meets c (p a)) (as : List α) :
    Returns c (fun bs => ∀ b ∈ bs, b ∈ as) (as.filterM p) := by
  have haux (left kept : List α) (hleft : ∀ a ∈ left, a ∈ as) (hkept : ∀ a ∈ kept, a ∈ as) :
      Returns c (fun bs => ∀ b ∈ bs, b ∈ as) (left.filterAuxM p kept) := by
    induction left generalizing kept with
    | nil => exact .pure hkept
    | cons a left ih =>
      obtain ⟨ha, hleft⟩ := List.forall_mem_cons.mp hleft
      refine (hp a).bind fun b _ => ih _ hleft ?_
      cases b with
      | true => exact List.forall_mem_cons.mpr ⟨ha, hkept⟩
      | false => exact hkept
  exact (haux as [] (fun _ h => h) nofun).bind fun bs hbs =>
    .pure fun b hb => hbs b (List.mem_reverse.mp hb)

/-- What is thrown instead must be allowed as well. -/
theorem rethrow {g : Fault → Fault} (hm : Returns c R m) (hg : ∀ f, c.fault f → c.fault (g f)) :
    Returns c R (tryCatch m fun f => MonadExcept.throw (g f)) := by
  intro st hst
  obtain ⟨hafter, hresult⟩ := hm st hst
  rw [after_tryCatch_throw, result_tryCatch_throw]
  refine ⟨hafter, ?_⟩
  cases hm' : m.result st with
  | ok a =>
    rw [hm'] at hresult
    exact hresult
  | error f =>
    rw [hm'] at hresult
    exact hg f hresult

theorem modify {f : Store → Store} (hf : ∀ st, c.store st → c.store (f st)) :
    Meets c (modify f : Eval Unit) :=
  fun st hst => ⟨hf st hst, trivial⟩

theorem modifyGet {f : Store → α × Store} (hf : ∀ st, c.store st → R (f st).1 ∧ c.store (f st).2) :
    Returns c R (modifyGet f : Eval α) :=
  fun st hst => ⟨(hf st hst).2, (hf st hst).1⟩

end Returns

namespace Meets
variable {f : α → Eval β}

theorem bind {S : β → Prop} (hm : Meets c m) (hf : ∀ a, Returns c S (f a)) :
    Returns c S (m >>= f) :=
  Returns.bind hm fun a _ => hf a

theorem mapM {as : List α} (hf : ∀ a ∈ as, Meets c (f a)) : Meets c (as.mapM f) :=
  (Returns.mapM hf).meets

theorem forM {f : α → Eval Unit} (hf : ∀ a, Meets c (f a)) (as : List α) :
    Meets c (as.forM f) := by
  induction as with
  | nil => exact .pure trivial
  | cons a as ih => exact (hf a).bind fun _ => ih

theorem filterM {p : α → Eval Bool} (hp : ∀ a, Meets c (p a)) (as : List α) :
    Meets c (as.filterM p) :=
  (Returns.filterM hp as).meets

end Meets
end Eval
end ChatTemplate
