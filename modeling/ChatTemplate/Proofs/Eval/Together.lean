import ChatTemplate.Proofs.Eval.StoreLogic
import ChatTemplate.Proofs.Store.Basic

/-!
# Two runs that stay together

Two runs begin in stores that have something in common: the same objects, and functions that go with
each other (`Store.Companions`). `Eval.Together K g`: what the stores have in common, `K`, stays so,
and both answer the same, or fail alike as far as `g` tells failures apart. The first run is given no
more depth than the second one, and where it lacks depth nothing is said. This goes through
sequencing, so that it is enough to look at the single steps.
-/

namespace ChatTemplate
variable {α β : Type}

/-! ### Stores -/

/-- The stores of two runs hold the same objects, and functions that `F` relates. -/
structure Store.Companions (F : (Bool → Function) → Prop) (st : Bool → Store) : Prop where
  objects : (st false).objects = (st true).objects
  functions_size : (st false).functions.size = (st true).functions.size
  functions : ∀ r, F fun i => (st i).function r

namespace Store.Companions
variable {F : (Bool → Function) → Prop} {st st' : Bool → Store} (h : Companions F st)
include h

theorem sameObjects (hname : ∀ f, F f → (f false).name = (f true).name) :
    (st false).SameObjects (st true) where
  objects := h.objects
  names r := hname _ (h.functions r)

/-- A step that leaves objects and functions alone. -/
theorem of_same (hobjects : ∀ i, (st' i).objects = (st i).objects)
    (hfunctions : ∀ i, (st' i).functions = (st i).functions) : Companions F st' where
  objects := by rw [hobjects, hobjects, h.objects]
  functions_size := by rw [hfunctions, hfunctions, h.functions_size]
  functions r := by simpa only [function, hfunctions] using h.functions r

theorem pushObject (slots : Slots Text Value) : Companions F fun i => (st i).pushObject slots :=
  ⟨by simp only [Store.pushObject, h.objects], h.functions_size, h.functions⟩

theorem putSlot (r : ObjectRef) (name : Text) (v : Value) :
    Companions F fun i => (st i).putSlot r name v :=
  ⟨by simp only [Store.putSlot, h.objects], h.functions_size, h.functions⟩

theorem pushFunction {f : Bool → Function} (hf : F f) :
    Companions F fun i => (st i).pushFunction (f i) := by
  refine ⟨h.objects, by simp [Store.pushFunction, h.functions_size], fun r => ?_⟩
  have hpush (i : Bool) : ((st i).pushFunction (f i)).function r =
      if r = (st false).functions.size then f i else (st i).function r := by
    have hsize : (st i).functions.size = (st false).functions.size := by
      cases i with
      | false => rfl
      | true => exact h.functions_size.symm
    rw [function, Store.pushFunction, Array.getElem?_push, hsize]
    split <;> rfl
  simp only [hpush]
  split
  · exact hf
  · exact h.functions r

end Store.Companions

/-! ### Evaluations -/

/-- The answers are the same, or the failures as far as `g` tells them apart. -/
inductive SameUpTo (g : Fault → Fault) : Except Fault α → Except Fault α → Prop
  | ok (a : α) : SameUpTo g (.ok a) (.ok a)
  | error {f f' : Fault} (h : g f = g f') : SameUpTo g (.error f) (.error f')

theorem SameUpTo.of_eq {g : Fault → Fault} {x y : Except Fault α} (h : x = y) :
    SameUpTo g x y := by
  subst h
  cases x with
  | ok a => exact .ok a
  | error f => exact .error rfl

theorem SameUpTo.eq {x y : Except Fault α} (h : SameUpTo id x y) : x = y := by
  cases h with
  | ok a => rfl
  | error h => exact congrArg Except.error h

namespace Eval

/-- From stores of this kind the first evaluation lacks depth, or both answer the same or fail alike,
and leave stores of this kind. -/
def Together (K : (Bool → Store) → Prop) (g : Fault → Fault) (m : Bool → Eval α) : Prop :=
  ∀ st, K st → (m false).result (st false) = .error .endless ∨
    SameUpTo g ((m false).result (st false)) ((m true).result (st true)) ∧
      K fun i => (m i).after (st i)

namespace Together
variable {K : (Bool → Store) → Prop} {g : Fault → Fault}

theorem of_eq {m : Bool → Eval α}
    (hresult : ∀ st, K st → (m false).result (st false) = (m true).result (st true))
    (hafter : ∀ st, K st → K fun i => (m i).after (st i)) : Together K g m :=
  fun st h => .inr ⟨.of_eq (hresult st h), hafter st h⟩

theorem pure (a : α) : Together K g fun _ => (Pure.pure a : Eval α) :=
  of_eq (fun _ _ => rfl) fun _ h => h

theorem throw (f : Fault) : Together K g fun _ => (MonadExcept.throw f : Eval α) :=
  of_eq (fun _ _ => rfl) fun _ h => h

theorem bind {m : Bool → Eval α} {f : Bool → α → Eval β} (hm : Together K g m)
    (hf : ∀ a, Together K g fun i => f i a) : Together K g fun i => m i >>= f i := by
  intro st h
  rcases hm st h with hendless | ⟨hsame, hafter⟩
  · exact .inl (by rw [result_bind, hendless])
  generalize hfirst : (m false).result (st false) = x at hsame
  generalize hsecond : (m true).result (st true) = y at hsame
  cases hsame with
  | ok a =>
    have hboth (i : Bool) : (m i >>= f i).after (st i) = (f i a).after ((m i).after (st i)) := by
      cases i with
      | false => exact after_bind_ok hfirst
      | true => exact after_bind_ok hsecond
    simp only [hboth]
    rw [result_bind_ok hfirst, result_bind_ok hsecond]
    exact hf a _ hafter
  | error hfault =>
    have hboth (i : Bool) : (m i >>= f i).after (st i) = (m i).after (st i) := by
      cases i with
      | false => rw [after_bind, hfirst]
      | true => rw [after_bind, hsecond]
    refine .inr ⟨?_, by simpa only [hboth] using hafter⟩
    rw [result_bind, result_bind, hfirst, hsecond]
    exact .error hfault

/-- The two may give a failure different places, unless `g` tells these apart. -/
theorem rethrow {m : Bool → Eval α} {pos : Bool → Option Pos}
    (hpos : ∀ f f', g f = g f' → g (f.locate (pos false)) = g (f'.locate (pos true)))
    (hm : Together K g m) :
    Together K g fun i => tryCatch (m i) fun f => MonadExcept.throw (f.locate (pos i)) := by
  intro st h
  simp only [after_tryCatch_throw, result_tryCatch_throw]
  refine (hm st h).imp (fun hendless => by rw [hendless]; rfl) fun ⟨hsame, hafter⟩ => ⟨?_, hafter⟩
  generalize (m false).result (st false) = x at hsame ⊢
  generalize (m true).result (st true) = y at hsame ⊢
  cases hsame with
  | ok a => exact .ok a
  | error hfault => exact .error (hpos _ _ hfault)

/-- An answer that both stores give. -/
theorem ask {q : Bool → Store → α} (h : ∀ st, K st → q false (st false) = q true (st true)) :
    Together K g fun i => (do return q i (← MonadState.get) : Eval α) :=
  of_eq (fun st hst => congrArg Except.ok (h st hst)) fun _ hst => hst

theorem finite {q : Store → Option α} (h : ∀ st, K st → q (st false) = q (st true)) :
    Together K g fun _ => Eval.finite q := by
  have hafter (st : Store) : (Eval.finite q).after st = st := by
    unfold Eval.finite
    rw [after_bind_ok (result_get st)]
    cases q st <;> rfl
  refine of_eq (fun st hst => ?_) fun st hst => by simpa only [hafter] using hst
  unfold Eval.finite
  rw [result_bind_ok (result_get _), result_bind_ok (result_get _), after_get, after_get, h st hst]
  cases q (st true) <;> rfl

/-- A step of both stores with the same answer. -/
theorem modifyGet {f : Bool → Store → α × Store}
    (hanswer : ∀ st, K st → (f false (st false)).1 = (f true (st true)).1)
    (hstep : ∀ st, K st → K fun i => (f i (st i)).2) :
    Together K g fun i => (MonadStateOf.modifyGet (f i) : Eval α) :=
  of_eq (fun st hst => congrArg Except.ok (hanswer st hst)) hstep

/-- Nothing more is asked of evaluations than what they do in stores of this kind. -/
theorem congr {m m' : Bool → Eval α}
    (h : ∀ st, K st → ∀ i, (m i).run.run (st i) = (m' i).run.run (st i))
    (hm : Together K g m') : Together K g m := by
  intro st hst
  have hrun := hm st hst
  have hresult (i : Bool) : (m i).result (st i) = (m' i).result (st i) :=
    congrArg Prod.fst (h st hst i)
  have hafter (i : Bool) : (m i).after (st i) = (m' i).after (st i) :=
    congrArg Prod.snd (h st hst i)
  simpa only [hresult, hafter] using hrun

/-- A scope of a frame without tests knows the built-in ones. -/
theorem findTest {scope : Bool → Scope} (name : Text) {f : Bool → String × Test → Eval β}
    (htests : ∀ st, K st → ∀ i, ((st i).frame (scope i).inner).tests = [])
    (hf : ∀ found : String × Test, (∃ t, found.2 = .builtin t) → Together K g fun i => f i found) :
    Together K g fun i => Eval.findTest (scope i) name >>= f i := by
  have hfound : Together K g fun i =>
      (builtinTest? name).elim (Eval.fail (.unknownTest name)) (f i) := by
    cases hname : builtinTest? name with
    | none => exact throw _
    | some found => exact hf _ (builtin_of_builtinTest? hname)
  exact congr (fun st h i => findTest_bind (htests st h i) name (f i)) hfound

end Together
end Eval
end ChatTemplate
