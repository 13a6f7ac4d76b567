import ChatTemplate.Proofs.Eval.FilterPrimitives
import ChatTemplate.Proofs.Store.Reachability

/-!
# Where the objects in an answer come from

`Store.Within O`: the values in slots and variables hold no other objects than those in `O`, and the
host offers no functions. Given values of such objects, operators, members, methods, filters and global
functions answer with such values again, and what they add to the store is of that kind
(`Contract.within_lenient`). An operation that makes an object answers with a reference to it, and so
is left out here: only `namespace` is one.
-/

namespace ChatTemplate

theorem Value.among_of_isPlain {O : Set ObjectRef} {v : Value} (h : v.isPlain) : v.Among O := by
  cases v with
  | array items => cases h
  | object r => cases h
  | _ => exact nofun

theorem Function.ne_host_of_isMethod {f : Function} (h : f.isMethod) (g : HostFunction) :
    f ≠ .host g := by
  rintro rfl
  cases h

/-- All objects that values in the store hold are among these, and no function is the host's. -/
structure Store.Within (O : Set ObjectRef) (st : Store) : Prop where
  slots : ∀ r, ∀ e ∈ st.slots r, e.2.Among O
  vars : ∀ r, ∀ e ∈ (st.frame r).vars, e.2.Among O
  functions : ∀ r f, st.function r ≠ .host f

namespace Store.Within
variable {O P : Set ObjectRef} {st : Store}

theorem mono (h : st.Within O) (hOP : O ⊆ P) : st.Within P where
  slots r e he := (h.slots r e he).mono hOP
  vars r e he := (h.vars r e he).mono hOP
  functions := h.functions

theorem pushObject (h : st.Within O) {slots : Slots Text Value} (hslots : ∀ e ∈ slots, e.2.Among O) :
    (st.pushObject slots).Within O := by
  refine ⟨fun r => ?_, h.vars, h.functions⟩
  rw [Store.slots, Store.pushObject, Array.getElem?_push]
  split
  · exact hslots
  · exact h.slots r

theorem pushFunction (h : st.Within O) {f : Function} (hf : ∀ g, f ≠ .host g) :
    (st.pushFunction f).Within O := by
  refine ⟨h.slots, h.vars, fun r => ?_⟩
  rw [Store.function, Store.pushFunction, Array.getElem?_push]
  split
  · exact hf
  · exact h.functions r

theorem pushFrame (h : st.Within O) {vars : Slots String Value} (hvars : ∀ e ∈ vars, e.2.Among O) :
    (st.pushFrame vars).Within O := by
  refine ⟨h.slots, fun r => ?_, h.functions⟩
  rw [Store.frame, Store.pushFrame, Array.getElem?_push]
  split
  · exact hvars
  · exact h.vars r

theorem bind (h : st.Within O) (r : FrameRef) (name : String) {v : Value} (hv : v.Among O) :
    (st.bind r name v).Within O := by
  refine ⟨h.slots, fun r' => ?_, h.functions⟩
  have hframe := h.vars r'
  rw [Store.frame] at hframe ⊢
  rw [Store.bind, Array.getElem?_modify]
  split
  · cases hr' : st.frames[r']? with
    | none => exact fun e he => absurd he List.not_mem_nil
    | some f =>
      rw [hr'] at hframe
      exact Slots.forall_put hframe hv
  · exact hframe

theorem putSlot (h : st.Within O) (r : ObjectRef) (name : Text) {v : Value} (hv : v.Among O) :
    (st.putSlot r name v).Within O := by
  refine ⟨fun r' => ?_, h.vars, h.functions⟩
  have hslots := h.slots r'
  rw [Store.slots] at hslots ⊢
  rw [Store.putSlot, Array.getElem?_modify]
  split
  · cases hr' : st.objects[r']? with
    | none => exact fun e he => absurd he List.not_mem_nil
    | some s =>
      rw [hr'] at hslots
      exact Slots.forall_put hslots hv
  · exact hslots

end Store.Within

namespace Contract
variable {O : Set ObjectRef}

/-- The values of such objects and the stores of these; any failure is allowed. -/
def within (O : Set ObjectRef) : Contract where
  store := Store.Within O
  fault _ := True
  value := Value.Among O
  slots s := ∀ e ∈ s, e.2.Among O

theorem within_lenient (host : Host) : (within O).Lenient host where
  plain := Value.among_of_isPlain
  array_iff := Value.among_array
  value_of_slots _ r hst := hst.slots r
  distinct _ _ hslots := hslots
  pushObject _ _ hslots hst := hst.pushObject hslots
  pushMethod _ _ hf hst := hst.pushFunction (Function.ne_host_of_isMethod hf)
  ordinary _ _ := trivial
  known _ _ := trivial
  endless := trivial
  tests := .inl ⟨trivial, fun _ _ => trivial⟩

end Contract

/-- All objects in the arguments are among these. -/
structure Args.Among (O : Set ObjectRef) (a : Args) : Prop where
  positional : ∀ v ∈ a.positional, v.Among O
  keywords : ∀ e ∈ a.keywords, e.2.Among O

namespace Args.Among
variable {O : Set ObjectRef} {a : Args} (ha : a.Among O)
include ha

theorem slots : ∀ e ∈ a.slots, e.2.Among O := by
  intro e he
  obtain ⟨⟨k, v⟩, hmem, rfl⟩ := List.mem_map.mp he
  exact ha.keywords _ hmem

theorem allowed : a.Allowed (.within O) := ⟨ha.positional, ha.keywords, ha.slots⟩

end Args.Among
end ChatTemplate
