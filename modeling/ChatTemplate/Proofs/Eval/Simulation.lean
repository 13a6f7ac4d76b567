import ChatTemplate.Eval.Convert
import ChatTemplate.Proofs.Eval.Outcome
import ChatTemplate.Proofs.Eval.View

/-!
# Evaluations that cannot tell stores apart

`Eval.Matches u R m m'`: run in stores that are alike in the view `u`, both evaluations fail alike or
answer with values that `R` relates, and leave stores that are alike again. This goes through
sequencing and loops, so that it is enough to look at the single steps.
-/

namespace ChatTemplate
variable {ε α β γ δ : Type}

/-- Both answer, with related values, or both fail in the same way. -/
inductive SameOutcome (R : α → β → Prop) : Except ε α → Except ε β → Prop
  | ok {a : α} {b : β} (h : R a b) : SameOutcome R (.ok a) (.ok b)
  | error (e : ε) : SameOutcome R (.error e) (.error e)

theorem SameOutcome.answers {R : α → β → Prop} {x : Except ε α} {y : Except ε β}
    (h : SameOutcome R x y) :
    (∃ e, x = .error e ∧ y = .error e) ∨ ∃ a b, x = .ok a ∧ y = .ok b ∧ R a b := by
  cases h with
  | ok h => exact .inr ⟨_, _, rfl, rfl, h⟩
  | error e => exact .inl ⟨e, rfl, rfl⟩

theorem SameOutcome.eq {x y : Except ε α} (h : SameOutcome Eq x y) : x = y := by
  rcases h with ⟨rfl⟩ | _
  · rfl
  · rfl

namespace Eval

/-- In stores that are alike, `m` and `m'` have the same outcome and leave stores that are alike. -/
def Matches (u : View) (R : α → β → Prop) (m : Eval α) (m' : Eval β) : Prop :=
  ∀ st st', st.Alike u st' →
    (m.after st).Alike u (m'.after st') ∧ SameOutcome R (m.result st) (m'.result st')

namespace Matches
variable {u : View} {R : α → β → Prop} {S : γ → δ → Prop}

theorem pure {a : α} {b : β} (h : R a b) : Matches u R (Pure.pure a) (Pure.pure b) := by
  intro st st' hst
  rw [after_pure, after_pure, result_pure, result_pure]
  exact ⟨hst, .ok h⟩

theorem throw (f : Fault) : Matches u R (throw f) (throw f) := by
  intro st st' hst
  rw [after_throw, after_throw, result_throw, result_throw]
  exact ⟨hst, .error f⟩

theorem fail (c : Cause) : Matches u R (Eval.fail c) (Eval.fail c) := throw _

theorem escape (e : Escape) : Matches u R (Eval.escape e) (Eval.escape e) := throw _

theorem get : Matches u (Store.Alike u) MonadState.get MonadState.get := by
  intro st st' hst
  rw [after_get, after_get, result_get, result_get]
  exact ⟨hst, .ok hst⟩

theorem bind {m : Eval α} {m' : Eval β} {f : α → Eval γ} {f' : β → Eval δ} (hm : Matches u R m m')
    (hf : ∀ a b, R a b → Matches u S (f a) (f' b)) : Matches u S (m >>= f) (m' >>= f') := by
  intro st st' hst
  obtain ⟨hafter, hresult⟩ := hm st st' hst
  rw [after_bind, after_bind, result_bind, result_bind]
  rcases hresult.answers with ⟨e, hm, hm'⟩ | ⟨a, b, hm, hm', hab⟩
  · rw [hm, hm']
    exact ⟨hafter, .error e⟩
  · rw [hm, hm']
    exact hf a b hab _ _ hafter

/-- What would come after a failure does not matter. -/
theorem fail_bind (c : Cause) {f : α → Eval γ} {f' : β → Eval δ} :
    Matches u S (Eval.fail c >>= f) (Eval.fail c >>= f') :=
  bind (R := fun _ _ => False) (fail c) fun _ _ h => h.elim

theorem map {m : Eval α} {m' : Eval β} {f : α → γ} {f' : β → δ} (hm : Matches u R m m')
    (hf : ∀ a b, R a b → S (f a) (f' b)) : Matches u S (f <$> m) (f' <$> m') := by
  rw [map_eq_pure_bind, map_eq_pure_bind]
  exact hm.bind fun a b hab => .pure (hf a b hab)

/-- A failure that is given a place is given the same place on both sides. -/
theorem rethrow {m : Eval α} {m' : Eval β} (g : Fault → Fault) (hm : Matches u R m m') :
    Matches u R (tryCatch m fun f => MonadExcept.throw (g f))
      (tryCatch m' fun f => MonadExcept.throw (g f)) := by
  intro st st' hst
  obtain ⟨hafter, hresult⟩ := hm st st' hst
  rw [after_tryCatch_throw, after_tryCatch_throw, result_tryCatch_throw, result_tryCatch_throw]
  refine ⟨hafter, ?_⟩
  rcases hresult.answers with ⟨e, hm, hm'⟩ | ⟨a, b, hm, hm', hab⟩
  · rw [hm, hm']
    exact .error (g e)
  · rw [hm, hm']
    exact .ok hab

/-! ### Loops -/

section Loops
variable {as : List α} {bs : List β}

theorem mapM {f : α → Eval γ} {f' : β → Eval δ} (h : List.Forall₂ R as bs)
    (hf : ∀ a b, R a b → Matches u S (f a) (f' b)) :
    Matches u (List.Forall₂ S) (as.mapM f) (bs.mapM f') := by
  induction h with
  | nil => rw [List.mapM_nil, List.mapM_nil]; exact .pure .nil
  | cons hab _ ih =>
    rw [List.mapM_cons, List.mapM_cons]
    exact (hf _ _ hab).bind fun c d hcd => ih.bind fun cs ds hcds => .pure (.cons hcd hcds)

theorem forM {f : α → Eval Unit} {f' : β → Eval Unit} (h : List.Forall₂ R as bs)
    (hf : ∀ a b, R a b → Matches u Eq (f a) (f' b)) : Matches u Eq (as.forM f) (bs.forM f') := by
  induction h with
  | nil => exact .pure rfl
  | cons hab _ ih => exact (hf _ _ hab).bind fun _ _ _ => ih

theorem filterAuxM {q : α → Eval Bool} {q' : β → Eval Bool} (h : List.Forall₂ R as bs)
    (hq : ∀ a b, R a b → Matches u Eq (q a) (q' b)) {kept : List α} {kept' : List β}
    (hkept : List.Forall₂ R kept kept') :
    Matches u (List.Forall₂ R) (as.filterAuxM q kept) (bs.filterAuxM q' kept') := by
  induction h generalizing kept kept' with
  | nil => exact .pure hkept
  | cons hab _ ih =>
    refine (hq _ _ hab).bind ?_
    rintro c _ rfl
    cases c with
    | false => exact ih hkept
    | true => exact ih (.cons hab hkept)

theorem filterM {q : α → Eval Bool} {q' : β → Eval Bool} (h : List.Forall₂ R as bs)
    (hq : ∀ a b, R a b → Matches u Eq (q a) (q' b)) :
    Matches u (List.Forall₂ R) (as.filterM q) (bs.filterM q') :=
  (filterAuxM h hq .nil).bind fun _ _ hkept => .pure (List.rel_reverse hkept)

end Loops

/-! ### Questions to the store -/

theorem finite {question : Store → Option α} {question' : Store → Option β}
    (h : ∀ st st', st.Alike u st' → Option.Rel R (question st) (question' st')) :
    Matches u R (Eval.finite question) (Eval.finite question') := by
  unfold Eval.finite
  refine get.bind fun st st' hst => ?_
  rcases optionRel_cases (h st st' hst) with ⟨ha, hb⟩ | ⟨a, b, ha, hb, hab⟩
  · rw [ha, hb]
    exact .throw _
  · rw [ha, hb]
    exact .pure hab

section Values
variable {v v' w w' : Value}

theorem datum (hv : v.Alike u.toPairing v') :
    Matches u (Datum.Alike u.toPairing) (Eval.datum v) (Eval.datum v') :=
  finite fun _ _ hst => hst.datum? hv

theorem textOf (hv : v.Alike u.toPairing v') : Matches u Eq (Eval.textOf v) (Eval.textOf v') :=
  (datum hv).bind fun _ _ hd => .pure hd.text_eq

theorem optionRel_of_eq {x y : Option α} (h : x = y) : Option.Rel Eq x y := by
  subst h
  cases x with
  | none => exact .none
  | some a => exact .some rfl

theorem equal (hv : v.Alike u.toPairing v') (hw : w.Alike u.toPairing w') :
    Matches u Eq (Eval.equal v w) (Eval.equal v' w') :=
  finite fun _ _ hst => optionRel_of_eq (hst.equal? hv hw)

theorem holds? {vs vs' : List Value} (hvs : List.Forall₂ (Value.Alike u.toPairing) vs vs')
    (hv : v.Alike u.toPairing v') :
    Matches u Eq (Eval.finite (·.holds? vs v)) (Eval.finite (·.holds? vs' v')) :=
  finite fun _ _ hst => optionRel_of_eq (hst.holds? hvs hv)

theorem truthy (hv : v.Alike u.toPairing v') : Matches u Eq (Eval.truthy v) (Eval.truthy v') :=
  get.bind fun _ _ hst => .pure (hst.truthy hv)

theorem slotsOf {r s : ObjectRef} (hrs : u.objects r s) :
    Matches u (Slots.Related (Value.Alike u.toPairing)) (Eval.slotsOf r) (Eval.slotsOf s) :=
  get.bind fun _ _ hst => .pure (hst.objects r s hrs)

theorem lookup {s : Scope} (hs : u.Admits s) {n : String} (hn : n ∈ u.names) :
    Matches u (Value.Alike u.toPairing) (do return (← MonadState.get).lookup s n)
      (do return (← MonadState.get).lookup s n) :=
  get.bind fun _ _ hst => .pure (hst.lookup hs hn)

/-! ### Changes of the store -/

theorem newObject {s t : Slots Text Value} (h : Slots.Related (Value.Alike u.toPairing) s t) :
    Matches u (Value.Alike u.toPairing) (Eval.newObject s) (Eval.newObject t) :=
  fun _ _ hst => ⟨hst.pushObject h, .ok (.object (hst.fresh_objects 0))⟩

theorem newFunction {f g : Function} (h : f.Alike u g) :
    Matches u (Value.Alike u.toPairing) (Eval.newFunction f) (Eval.newFunction g) :=
  fun _ _ hst => ⟨hst.pushFunction h, .ok (.function (hst.fresh_functions 0))⟩

/-- New scopes are the same on both sides, and are the run's own. -/
theorem innerScope {s : Scope} (hs : ∀ r ∈ s.chain, u.Sees r) :
    Matches u (fun t t' => t = t' ∧ u.Admits t) (Eval.innerScope s) (Eval.innerScope s) := by
  intro st st' hst
  refine ⟨hst.pushFrame, .ok ⟨?_, hst.base_le, ?_⟩⟩
  · rw [hst.frames_size]
  · intro r hr
    rcases List.mem_cons.mp hr with rfl | hr
    · exact .inl hst.base_le
    · exact hs r hr

theorem bindName (s : Scope) (name : String) (hv : v.Alike u.toPairing v') :
    Matches u Eq (Eval.bind s name v) (Eval.bind s name v') :=
  fun _ _ hst => ⟨hst.bind s.inner name hv, .ok rfl⟩

theorem putSlot {r s : ObjectRef} (hrs : u.objects r s) (name : Text)
    (hv : v.Alike u.toPairing v') :
    Matches u Eq (modify fun st => st.putSlot r name v : Eval Unit)
      (modify fun st => st.putSlot s name v' : Eval Unit) :=
  fun _ _ hst => ⟨hst.putSlot hrs name hv, .ok rfl⟩

end Values

/-! ### The host -/

theorem toHost {v v' : Value} (hv : v.Alike u.toPairing v') :
    Matches u (HostValue.Alike u.toPairing) (Eval.toHost v) (Eval.toHost v') :=
  (datum hv).bind fun _ _ hd => .pure hd.toHost

mutual

theorem ofHost {h h' : HostValue} (hh : h.Alike u.toPairing h') :
    Matches u (Value.Alike u.toPairing) (Eval.ofHost h) (Eval.ofHost h') := by
  cases hh with
  | null => exact .pure .null
  | bool b => exact .pure (.bool b)
  | int i => exact .pure (.int i)
  | float f => exact .pure (.float f)
  | string s => exact .pure (.string s)
  | list hs =>
    unfold Eval.ofHost
    exact (ofHostItems hs).bind fun _ _ hvs => .pure (.array hvs)
  | tuple hs =>
    unfold Eval.ofHost
    exact (ofHostItems hs).bind fun _ _ hvs => .pure (.array hvs)
  | map hes =>
    unfold Eval.ofHost
    exact (ofHostEntries hes).bind fun _ _ hs => newObject (Slots.Related.putAll .nil hs)
  | callable f => exact newFunction (.host f)
  | foreign typeName => exact .fail _
  | value hv => exact .pure hv

theorem ofHostItems {hs hs' : List HostValue}
    (h : List.Forall₂ (HostValue.Alike u.toPairing) hs hs') :
    Matches u (List.Forall₂ (Value.Alike u.toPairing)) (Eval.ofHostItems hs)
      (Eval.ofHostItems hs') := by
  cases h with
  | nil => exact .pure .nil
  | cons hh hhs =>
    unfold Eval.ofHostItems
    exact (ofHost hh).bind fun _ _ hv => (ofHostItems hhs).bind fun _ _ hvs => .pure (.cons hv hvs)

theorem ofHostEntries {es es' : List (HostKey × HostValue)}
    (h : HostValue.AlikeEntries u.toPairing es es') :
    Matches u (Slots.Related (Value.Alike u.toPairing)) (Eval.ofHostEntries es)
      (Eval.ofHostEntries es') := by
  cases h with
  | nil => exact .pure .nil
  | cons k hh hes =>
    unfold Eval.ofHostEntries Eval.ofHostEntry
    rw [bind_assoc, bind_assoc]
    exact (ofHost hh).bind fun _ _ hv =>
      (ofHostEntries hes).bind fun _ _ hs => .pure (.cons ⟨rfl, hv⟩ hs)

end

end Matches
end Eval
end ChatTemplate
