import ChatTemplate.Proofs.Eval.Looking
import ChatTemplate.Proofs.Eval.StoreLogic

/-!
# Evaluations that only add to the store

`Store.Grows` is the preorder of the steps that only add: no frame changes, and the objects and
functions that are there stay as they are. Everything but the evaluation of the parts of a template,
the binding of names and the assignment to members respects it (`Eval.Adds`): operators, members,
methods, tests, filters, global functions and the exchange of values with the host.
-/

namespace ChatTemplate
variable {α : Type}

/-- The objects and functions of the first store are in the second one, at the same places. -/
structure Store.Keeps (st st' : Store) : Prop where
  objects : ∀ r, r < st.objects.size → st'.objects[r]? = st.objects[r]?
  functions : ∀ r, r < st.functions.size → st'.functions[r]? = st.functions[r]?

namespace Store.Keeps
variable {st st' st'' : Store}

theorem refl (st : Store) : st.Keeps st := ⟨fun _ _ => rfl, fun _ _ => rfl⟩

theorem objects_size_le (h : st.Keeps st') : st.objects.size ≤ st'.objects.size := by
  refine Nat.le_of_not_lt fun hlt => ?_
  have := h.objects st'.objects.size hlt
  simp only [Array.getElem?_eq_none (Nat.le_refl _), Array.getElem?_eq_getElem hlt] at this
  cases this

theorem functions_size_le (h : st.Keeps st') : st.functions.size ≤ st'.functions.size := by
  refine Nat.le_of_not_lt fun hlt => ?_
  have := h.functions st'.functions.size hlt
  simp only [Array.getElem?_eq_none (Nat.le_refl _), Array.getElem?_eq_getElem hlt] at this
  cases this

theorem trans (h : st.Keeps st') (h' : st'.Keeps st'') : st.Keeps st'' where
  objects r hr := (h'.objects r (Nat.lt_of_lt_of_le hr h.objects_size_le)).trans (h.objects r hr)
  functions r hr :=
    (h'.functions r (Nat.lt_of_lt_of_le hr h.functions_size_le)).trans (h.functions r hr)

theorem slots_eq (h : st.Keeps st') {r : ObjectRef} (hr : r < st.objects.size) :
    st'.slots r = st.slots r := by
  unfold Store.slots
  rw [h.objects r hr]

theorem function_eq (h : st.Keeps st') {r : FunctionRef} (hr : r < st.functions.size) :
    st'.function r = st.function r := by
  unfold Store.function
  rw [h.functions r hr]

end Store.Keeps

/-- Nothing changes, but there may be more objects and functions. -/
structure Store.Grows (st st' : Store) : Prop extends Store.Keeps st st' where
  frames : st'.frames = st.frames

namespace Store.Grows
variable {st st' st'' : Store}

theorem refl (st : Store) : st.Grows st := ⟨.refl st, rfl⟩

theorem trans (h : st.Grows st') (h' : st'.Grows st'') : st.Grows st'' :=
  ⟨h.toKeeps.trans h'.toKeeps, h'.frames.trans h.frames⟩

instance : IsPreorder Store Store.Grows where
  refl := refl
  trans _ _ _ := trans

theorem pushObject (st : Store) (slots : Slots Text Value) : st.Grows (st.pushObject slots) where
  objects r hr := by
    simp [Store.pushObject, Array.getElem?_push, Nat.ne_of_lt hr]
  functions _ _ := rfl
  frames := rfl

theorem pushFunction (st : Store) (f : Function) : st.Grows (st.pushFunction f) where
  objects _ _ := rfl
  functions r hr := by
    simp [Store.pushFunction, Array.getElem?_push, Nat.ne_of_lt hr]
  frames := rfl

end Store.Grows

namespace Eval

/-- The evaluation only adds objects and functions to the store. -/
abbrev Adds (m : Eval α) : Prop := m.Respects Store.Grows

namespace Adds

theorem newObject (slots : Slots Text Value) : Adds (Eval.newObject slots) :=
  fun st => .pushObject st slots

theorem newFunction (f : Function) : Adds (Eval.newFunction f) :=
  fun st => .pushFunction st f

/-- Whatever opens no scopes and binds no names only adds to the store. -/
def logic (host : Host) : StoreLogic host Unit where
  toLogic := Respects.logic Store.Grows host
  Later _ _ := True
  Place := Scope
  scopeOf scope _ := scope
  Sees _ _ := False
  Finds _ _ := True
  Owns _ _ := False
  sees := id
  finds _ := trivial
  later _ := id
  hostFails _ _ := .throw _
  lookup _ _ := .bind .get fun _ => .pure _
  newObject := newObject
  stringMethod _ _ := newFunction _
  objectMethod _ _ := newFunction _
  hostFunction _ := newFunction _
  innerScope h := h.elim
  bindName _ _ h := h.elim
  findTest name := fun _ hf => .bind (Respects.findTest _ name) fun found => hf found trivial

/-! ### Operations -/

theorem of_holds (host : Host) {m : Eval α} (h : (logic host).Holds () fun _ => m) : Adds m := h

theorem ofHost (h : HostValue) : Adds (Eval.ofHost h) := of_holds Host.none (.ofHost h)

theorem lookupMember (object key : Value) : Adds (Eval.lookupMember object key) :=
  of_holds Host.none (.lookupMember object key)

theorem sliceBound (v : Value) : Adds (Eval.sliceBound v) := of_holds Host.none (.sliceBound v)

theorem slice (object : Value) (start stop step : Option Int) :
    Adds (Eval.slice object start stop step) :=
  of_holds Host.none (.slice object start stop step)

theorem binary (op : String) (left right : Value) : Adds (Eval.binary op left right) :=
  of_holds Host.none (.binary op left right)

theorem callStringMethod (s : Text) (m : StringMethod) (a : Args) :
    Adds (Eval.callStringMethod s m a) :=
  of_holds Host.none (.callStringMethod s m a)

theorem callObjectMethod (r : ObjectRef) (m : ObjectMethod) (a : Args) :
    Adds (Eval.callObjectMethod r m a) :=
  of_holds Host.none (.callObjectMethod r m a)

theorem runTest (host : Host) (name : String) (test : Test) (v : Value) (args : List Value) :
    Adds (Eval.runTest host name test v args) :=
  of_holds host (.runTest name trivial v args)

theorem applyFilter (host : Host) (scope : Scope) (keywords : Slots String Value) (name : Text)
    (positional : List Value) (v : Value) :
    Adds (Eval.applyFilter host scope keywords name positional v) :=
  have hfinds : (logic host).Finds () scope := trivial
  of_holds host (.applyFilter hfinds keywords name positional v)

theorem callRange (a : Args) : Adds (Eval.callRange a) := of_holds Host.none (.callRange a)

theorem callRaise (a : Args) : Adds (Eval.callRaise a) := of_holds Host.none (.callRaise a)

theorem callNamespace (a : Args) : Adds (Eval.callNamespace a) :=
  of_holds Host.none (.callNamespace a)

theorem callHost (host : Host) (f : HostFunction) (a : Args) : Adds (Eval.callHost host f a) :=
  of_holds host (.callHost f a)

end Adds
end Eval
end ChatTemplate
