import ChatTemplate.Proofs.Eval.Simulation

/-!
# Where converted values are kept

Taking a value over from the host adds an object for each mapping in it and a function for each
callable, one after the other, and nothing else (`Eval.ofHost_allocates`). How many there are depends
on the value alone (`HostValue.room`), so that two conversions of one value, in whatever stores, give
values that are alike if what one adds is paired with what the other adds.
-/

namespace ChatTemplate
variable {α β γ δ : Type}

namespace HostValue

mutual

/-- The room that a value takes, where a mapping takes `m` and a callable `c`. -/
def room (m c : Nat) : HostValue → Nat
  | .list hs | .tuple hs => roomOfItems m c hs
  | .map es => roomOfEntries m c es + m
  | .callable _ => c
  | _ => 0

def roomOfItems (m c : Nat) : List HostValue → Nat
  | [] => 0
  | h :: hs => room m c h + roomOfItems m c hs

def roomOfEntries (m c : Nat) : List (HostKey × HostValue) → Nat
  | [] => 0
  | e :: es => roomOfEntry m c e + roomOfEntries m c es

def roomOfEntry (m c : Nat) : HostKey × HostValue → Nat
  | (_, h) => room m c h

end

mutual

/-- Is there nothing in a value that templates do not know? -/
def convertible : HostValue → Bool
  | .list hs | .tuple hs => itemsConvertible hs
  | .map es => entriesConvertible es
  | .foreign _ => false
  | _ => true

def itemsConvertible : List HostValue → Bool
  | [] => true
  | h :: hs => convertible h && itemsConvertible hs

def entriesConvertible : List (HostKey × HostValue) → Bool
  | [] => true
  | e :: es => entryConvertible e && entriesConvertible es

def entryConvertible : HostKey × HostValue → Bool
  | (_, h) => convertible h

end

end HostValue

/-- The store with further objects and functions. -/
def Store.extend (st : Store) (objects : List (Slots Text Value)) (functions : List Function) :
    Store :=
  { st with
    objects := st.objects ++ objects.toArray
    functions := st.functions ++ functions.toArray }

theorem Store.extend_nil (st : Store) : st.extend [] [] = st := by
  simp [Store.extend]

theorem Store.extend_extend (st : Store) (os os' : List (Slots Text Value))
    (fs fs' : List Function) :
    (st.extend os fs).extend os' fs' = st.extend (os ++ os') (fs ++ fs') := by
  simp [Store.extend]

namespace Eval

/-- The evaluation answers, and adds `k` objects and `l` functions to the store. -/
structure Allocation (m : Eval α) (st : Store) (k l : Nat) where
  answer : α
  objects : List (Slots Text Value)
  functions : List Function
  result_eq : m.result st = .ok answer
  after_eq : m.after st = st.extend objects functions
  objects_length : objects.length = k
  functions_length : functions.length = l

namespace Allocation
variable {m : Eval α} {f : α → Eval γ} {st : Store} {k l k' l' : Nat}

def pure (a : α) (st : Store) : Allocation (Pure.pure a) st 0 0 where
  answer := a
  objects := []
  functions := []
  result_eq := rfl
  after_eq := st.extend_nil.symm
  objects_length := rfl
  functions_length := rfl

def bind (a : Allocation m st k l)
    (b : Allocation (f a.answer) (st.extend a.objects a.functions) k' l') :
    Allocation (m >>= f) st (k + k') (l + l') where
  answer := b.answer
  objects := a.objects ++ b.objects
  functions := a.functions ++ b.functions
  result_eq := by rw [result_bind_ok a.result_eq, a.after_eq, b.result_eq]
  after_eq := by rw [after_bind_ok a.result_eq, a.after_eq, b.after_eq, Store.extend_extend]
  objects_length := by rw [List.length_append, a.objects_length, b.objects_length]
  functions_length := by rw [List.length_append, a.functions_length, b.functions_length]

end Allocation

/-- The next `k` objects and `l` functions of two stores are paired in their order. -/
structure PairsNext (u : View) (st st' : Store) (k l : Nat) : Prop where
  objects : ∀ i < k, u.objects (st.objects.size + i) (st'.objects.size + i)
  functions : ∀ i < l, u.functions (st.functions.size + i) (st'.functions.size + i)

/-- Both evaluations answer, in whatever stores, and add as much. In a view with `H` that pairs what
they add, `R` relates the answers, and what they add is alike. -/
def Allocates (k l : Nat) (H : View → Prop) (R : View → α → β → Prop) (m : Eval α)
    (m' : Eval β) : Prop :=
  ∀ st st', ∃ (a : Allocation m st k l) (b : Allocation m' st' k l),
    ∀ u, H u → PairsNext u st st' k l →
      R u a.answer b.answer ∧
      List.Forall₂ (Slots.Related (Value.Alike u.toPairing)) a.objects b.objects ∧
      List.Forall₂ (Function.Alike u) a.functions b.functions

namespace Allocates
variable {k l k' l' : Nat} {H : View → Prop} {R : View → α → β → Prop} {S : View → γ → δ → Prop}

theorem pure {a : α} {b : β} (h : ∀ u, H u → R u a b) :
    Allocates 0 0 H R (Pure.pure a) (Pure.pure b) :=
  fun st st' => ⟨.pure a st, .pure b st', fun u hu _ => ⟨h u hu, .nil, .nil⟩⟩

theorem bind {m : Eval α} {m' : Eval β} {f : α → Eval γ} {f' : β → Eval δ}
    (hm : Allocates k l H R m m')
    (hf : ∀ a b, Allocates k' l' (fun u => H u ∧ R u a b) S (f a) (f' b)) :
    Allocates (k + k') (l + l') H S (m >>= f) (m' >>= f') := by
  intro st st'
  obtain ⟨a, b, hab⟩ := hm st st'
  obtain ⟨a', b', hab'⟩ := hf a.answer b.answer (st.extend a.objects a.functions)
    (st'.extend b.objects b.functions)
  refine ⟨a.bind a', b.bind b', fun u hu hnext => ?_⟩
  have hfirst : PairsNext u st st' k l :=
    ⟨fun i hi => hnext.objects i (Nat.lt_add_right _ hi),
      fun i hi => hnext.functions i (Nat.lt_add_right _ hi)⟩
  have hsecond : PairsNext u (st.extend a.objects a.functions)
      (st'.extend b.objects b.functions) k' l' := by
    constructor
    · intro i hi
      have := hnext.objects (k + i) (Nat.add_lt_add_left hi k)
      simpa [Store.extend, a.objects_length, b.objects_length, Nat.add_assoc] using this
    · intro i hi
      have := hnext.functions (l + i) (Nat.add_lt_add_left hi l)
      simpa [Store.extend, a.functions_length, b.functions_length, Nat.add_assoc] using this
  obtain ⟨hr, hobjects, hfunctions⟩ := hab u hu hfirst
  obtain ⟨hs, hobjects', hfunctions'⟩ := hab' u ⟨hu, hr⟩ hsecond
  exact ⟨hs, List.rel_append hobjects hobjects', List.rel_append hfunctions hfunctions'⟩

theorem weaken {H' : View → Prop} {m : Eval α} {m' : Eval β} (hm : Allocates k l H R m m')
    (h : ∀ u, H' u → H u) : Allocates k l H' R m m' := by
  intro st st'
  obtain ⟨a, b, hab⟩ := hm st st'
  exact ⟨a, b, fun u hu hnext => hab u (h u hu) hnext⟩

theorem newObject {s t : Slots Text Value}
    (h : ∀ u, H u → Slots.Related (Value.Alike u.toPairing) s t) :
    Allocates 1 0 H (fun u => Value.Alike u.toPairing) (Eval.newObject s) (Eval.newObject t) := by
  intro st st'
  refine ⟨⟨.object st.objects.size, [s], [], rfl, ?_, rfl, rfl⟩,
    ⟨.object st'.objects.size, [t], [], rfl, ?_, rfl, rfl⟩, fun u hu hnext => ?_⟩
  · simp [Eval.newObject, Store.extend, Store.pushObject]
  · simp [Eval.newObject, Store.extend, Store.pushObject]
  · exact ⟨.object (hnext.objects 0 Nat.zero_lt_one), .cons (h u hu) .nil, .nil⟩

theorem newFunction {f g : Function} (h : ∀ u, H u → f.Alike u g) :
    Allocates 0 1 H (fun u => Value.Alike u.toPairing) (Eval.newFunction f)
      (Eval.newFunction g) := by
  intro st st'
  refine ⟨⟨.function st.functions.size, [], [f], rfl, ?_, rfl, rfl⟩,
    ⟨.function st'.functions.size, [], [g], rfl, ?_, rfl, rfl⟩, fun u hu hnext => ?_⟩
  · simp [Eval.newFunction, Store.extend, Store.pushFunction]
  · simp [Eval.newFunction, Store.extend, Store.pushFunction]
  · exact ⟨.function (hnext.functions 0 Nat.zero_lt_one), .nil, .cons (h u hu) .nil⟩

end Allocates

mutual

theorem ofHost_allocates (h : HostValue) (hh : h.convertible) :
    Allocates (h.room 1 0) (h.room 0 1) (fun u => h.Alike u.toPairing h)
      (fun u => Value.Alike u.toPairing) (ofHost h) (ofHost h) := by
  cases h with
  | null => exact .pure fun u _ => .null
  | bool b => exact .pure fun u _ => .bool b
  | int i => exact .pure fun u _ => .int i
  | float f => exact .pure fun u _ => .float f
  | string s => exact .pure fun u _ => .string s
  | list hs =>
    unfold ofHost
    refine .bind (.weaken (ofHostItems_allocates hs hh) ?_) fun vs ws =>
      .pure fun u hu => .array hu.2
    rintro u ⟨hhs⟩
    assumption
  | tuple hs =>
    unfold ofHost
    refine .bind (.weaken (ofHostItems_allocates hs hh) ?_) fun vs ws =>
      .pure fun u hu => .array hu.2
    rintro u ⟨hhs⟩
    assumption
  | map es =>
    unfold ofHost
    refine .bind (.weaken (ofHostEntries_allocates es hh) ?_) fun s t =>
      .newObject fun u hu => Slots.Related.putAll .nil hu.2
    rintro u ⟨hes⟩
    assumption
  | callable f => exact .newFunction fun u _ => .host f
  | foreign typeName => cases hh
  | value v =>
    refine .pure fun u hu => ?_
    cases hu
    assumption

theorem ofHostItems_allocates (hs : List HostValue) (hhs : HostValue.itemsConvertible hs) :
    Allocates (HostValue.roomOfItems 1 0 hs) (HostValue.roomOfItems 0 1 hs)
      (fun u => List.Forall₂ (HostValue.Alike u.toPairing) hs hs)
      (fun u => List.Forall₂ (Value.Alike u.toPairing)) (ofHostItems hs) (ofHostItems hs) := by
  cases hs with
  | nil => exact .pure fun u _ => .nil
  | cons h hs =>
    simp only [HostValue.itemsConvertible, Bool.and_eq_true] at hhs
    unfold ofHostItems
    refine .bind (.weaken (ofHost_allocates h hhs.1) ?_) fun v w =>
      .bind (.weaken (ofHostItems_allocates hs hhs.2) ?_) fun vs ws =>
        .pure fun u hu => .cons hu.1.2 hu.2
    · exact fun u hu => (List.forall₂_cons.mp hu).1
    · exact fun u hu => (List.forall₂_cons.mp hu.1).2

theorem ofHostEntries_allocates (es : List (HostKey × HostValue))
    (hes : HostValue.entriesConvertible es) :
    Allocates (HostValue.roomOfEntries 1 0 es) (HostValue.roomOfEntries 0 1 es)
      (fun u => HostValue.AlikeEntries u.toPairing es es)
      (fun u => Slots.Related (Value.Alike u.toPairing)) (ofHostEntries es)
      (ofHostEntries es) := by
  match es with
  | [] => exact .pure fun u _ => .nil
  | (k, h) :: es =>
    simp only [HostValue.entriesConvertible, HostValue.entryConvertible, Bool.and_eq_true] at hes
    unfold ofHostEntries ofHostEntry
    rw [bind_assoc]
    refine .bind (.weaken (ofHost_allocates h hes.1) ?_) fun v w =>
      .bind (.weaken (ofHostEntries_allocates es hes.2) ?_) fun s t =>
        .pure fun u hu => .cons ⟨rfl, hu.1.2⟩ hu.2
    · rintro u ⟨⟩
      assumption
    · rintro u ⟨⟨⟩, _⟩
      assumption

end

end Eval
end ChatTemplate
