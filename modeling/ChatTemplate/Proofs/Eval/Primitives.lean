import ChatTemplate.Eval.Calls
import ChatTemplate.Eval.Members
import ChatTemplate.Eval.Operators
import ChatTemplate.Eval.Tests
import ChatTemplate.Proofs.Eval.Contract
import ChatTemplate.Proofs.Store.Basic
import Mathlib.Tactic.SplitIfs

/-!
# What operations do and fail with

Operators, members, methods, tests and global functions add objects and methods to the store and
change nothing in it; so do filters (`Contract.Lenient.applyFilter`). They fail with errors of the
template (`Cause.ordinary`), with values out of the range of an operation (`Escape.Known`), or do
not end. What they answer is made of the values that they are given and that are in the store, but for
references to new objects, which only `namespace` answers. So they keep to every contract that allows
this (`Contract.Lenient`).
-/

namespace ChatTemplate
variable {α β : Type}

/-- Is this an error of the operations, none of the two that only the shape of a program gives rise to (a
signal outside a loop, and a filter that is no name), and none of the host? -/
def Cause.ordinary : Cause → Bool
  | .signalOutsideLoop _ | .unknownFilter _ none | .foreign .. => false
  | _ => true

/-- The integer does not fit into 64 bits. -/
def BeyondSize (i : Int) : Prop := i < -Nat.pow 2 63 ∨ Nat.pow 2 63 ≤ i

/-- The operators that take integers and doubles together. -/
def mixedOperators : List String := ["+", "-", "*", "%"]

/-- A value that cannot be worked on, and is none. -/
def BadValue.Known : BadValue → Prop
  | .emptySeparator | .notANumber => True
  | .numeral _ => False
  | .digits i => Nat.pow 10 Eval.maxDigits ≤ i.natAbs

/-- The number is in fact out of the range of the operation. -/
def Overflow.Known : Overflow → Prop
  | .count i | .width i => BeyondSize i
  | .infinite => True
  | .operand op i => op ∈ mixedOperators ∧ Double.ofInt? i = none
  | .toDouble i => Double.ofInt? i = none

/-- Where the operations of a template escape to the host. -/
def Escape.Known : Escape → Prop
  | @Escape.badValue site => site.Known
  | @Escape.overflow site => site.Known
  | .badCall => False

/-- A function that a member of a value is. -/
def Function.isMethod : Function → Bool
  | .stringMethod .. | .objectMethod .. => true
  | _ => false

/-- Is there no other value in this one? -/
def Value.isPlain : Value → Bool
  | .array _ | .object _ => false
  | _ => true

theorem Value.isPlain_ofNumber (n : Number) : (ofNumber n).isPlain := by
  cases n <;> rfl

mutual

/-- Is a value of the host made of constants, lists and mappings alone? -/
def HostValue.isData : HostValue → Bool
  | .list items | .tuple items => HostValue.allData items
  | .map entries => HostValue.entriesData entries
  | .callable _ | .foreign _ | .value _ => false
  | .null | .bool _ | .int _ | .float _ | .string _ => true

def HostValue.allData : List HostValue → Bool
  | [] => true
  | h :: hs => h.isData && HostValue.allData hs

def HostValue.entriesData : List (HostKey × HostValue) → Bool
  | [] => true
  | e :: es => HostValue.entryData e && HostValue.entriesData es

def HostValue.entryData : HostKey × HostValue → Bool
  | (_, h) => h.isData

end

/-- `Q` allows what the functions and tests of the host fail with, and a test that is not asked as it
expects. -/
structure Host.Allowed (host : Host) (Q : Fault → Prop) : Prop where
  badCall : Q (.escape .badCall)
  fails : host.FailsWith Q

namespace Contract

/-- Values of the contract are made of values of it, and objects hold no others. -/
structure Closed (c : Contract) : Prop where
  plain : ∀ {v : Value}, v.isPlain → c.value v
  array_iff : ∀ {vs : List Value}, c.value (.array vs) ↔ ∀ v ∈ vs, c.value v
  value_of_slots : ∀ st r, c.store st → ∀ e ∈ st.slots r, c.value e.2

theorem Closed.of_forall {c : Contract} (h : ∀ v, c.value v) : c.Closed where
  plain _ := h _
  array_iff := ⟨fun _ v _ => h v, fun _ => h _⟩
  value_of_slots _ _ _ e _ := h e.2

/-- The contract allows what operations do. -/
structure Lenient (c : Contract) (host : Host) : Prop extends c.Closed where
  distinct : ∀ slots : Slots Text Value, slots.names.Nodup → (∀ e ∈ slots, c.value e.2) →
    c.slots slots
  pushObject : ∀ st slots, c.slots slots → c.store st → c.store (st.pushObject slots)
  pushMethod : ∀ st (f : Function), f.isMethod → c.store st → c.store (st.pushFunction f)
  ordinary : ∀ cause : Cause, cause.ordinary → c.fault (.error cause none)
  known : ∀ why : Escape, why.Known → c.fault (.escape why)
  endless : c.fault .endless
  /-- Unless the host may fail as it does, a scope knows the built-in tests only. -/
  tests : host.Allowed c.fault ∨ ∀ st, c.store st → ∀ scope name test,
    st.test? scope name = some test → ∃ b, test = .builtin b ∧ BuiltinTest.ofName? name = some b

/-- The test is built in, or the host may fail as it does. -/
def TestKnown (c : Contract) (host : Host) (found : String × Test) : Prop :=
  host.Allowed c.fault ∨ ∃ b, found.2 = .builtin b ∧ BuiltinTest.ofName? found.1 = some b

/-- The host may do what it does. -/
structure Open (c : Contract) (host : Host) : Prop where
  allowed : host.Allowed c.fault
  pushHost : ∀ st f, c.store st → c.store (st.pushFunction (.host f))

end Contract

/-- The arguments are of the contract. -/
structure Args.Allowed (c : Contract) (a : Args) : Prop where
  positional : ∀ v ∈ a.positional, c.value v
  keywords : ∀ e ∈ a.keywords, c.value e.2
  slots : c.slots a.slots

theorem Slice.mem_of_mem_pick {xs : List α} {start stop : Option Int} {step : Int} {x : α}
    (h : x ∈ Slice.pick xs start stop step) : x ∈ xs := by
  obtain ⟨i, -, hi⟩ := List.mem_filterMap.mp h
  rw [List.getElem?_toArray] at hi
  exact List.mem_of_getElem? hi

theorem Eval.Meets.truthy {c : Contract} (v : Value) : Meets c (Eval.truthy v) :=
  Returns.get.bind fun _ _ => .pure trivial

namespace Contract.Lenient
open Eval (Gives Meets Returns)
variable {c : Contract} {host : Host} {R : α → Prop} (hc : c.Lenient host)
include hc

theorem fail {cause : Cause} (h : cause.ordinary) : Returns c R (Eval.fail cause) :=
  .throw (hc.ordinary cause h)

theorem fail_bind {cause : Cause} {f : β → Eval α} (h : cause.ordinary) :
    Returns c R (Eval.fail cause >>= f) :=
  fun _ hst => ⟨hst, hc.ordinary cause h⟩

theorem escape {why : Escape} (h : why.Known) : Returns c R (Eval.escape why) :=
  .throw (hc.known why h)

theorem newObject {slots : Slots Text Value} (h : c.slots slots) : Meets c (Eval.newObject slots) :=
  .modifyGet fun st hst => ⟨trivial, hc.pushObject st slots h hst⟩

theorem newMethod {f : Function} (h : f.isMethod) : Gives c (Eval.newFunction f) :=
  .modifyGet fun st hst => ⟨hc.plain rfl, hc.pushMethod st f h hst⟩

/-! ### Questions to the store -/

theorem finite (question : Store → Option α) : Meets c (Eval.finite question) := by
  unfold Eval.finite
  refine Returns.get.bind fun st _ => ?_
  split
  · exact .pure trivial
  · exact .throw hc.endless

theorem datum (v : Value) : Meets c (Eval.datum v) := hc.finite _

theorem textOf (v : Value) : Meets c (Eval.textOf v) :=
  (hc.datum v).bind fun _ => .pure trivial

theorem equal (v w : Value) : Meets c (Eval.equal v w) := hc.finite _

theorem slotsOf (r : ObjectRef) :
    Returns c (fun slots => ∀ e ∈ slots, c.value e.2) (Eval.slotsOf r) :=
  Returns.get.bind fun st hst => .pure (hc.value_of_slots st r hst)

theorem toHost (v : Value) : Meets c (Eval.toHost v) :=
  (hc.datum v).bind fun _ => .pure trivial

/-! ### Arguments -/

theorem values {a : Args} (ha : c.slots a.slots) : Meets c a.values := by
  unfold Args.values
  split
  · exact .pure trivial
  · exact (hc.newObject ha).bind fun _ => .pure trivial

theorem expectCount (a : Args) (method : String) (least most : Nat) :
    Meets c (a.expectCount method least most) := by
  unfold Args.expectCount
  split
  · exact .pure trivial
  · exact hc.fail rfl

theorem pick {a : Args} (ha : a.Allowed c) (method : String) (params : List String) :
    Returns c (fun picked => ∀ e ∈ picked, c.value e.2) (a.pick method params) := by
  unfold Args.pick
  dsimp only
  split
  · exact hc.fail_bind rfl
  split
  · exact hc.fail rfl
  · refine .pure (Slots.forall_putAll (fun e he => ?_) ha.keywords)
    exact ha.positional _ (List.of_mem_zip he).2

theorem asString (method : String) (v : Value) : Meets c (Eval.asString method v) := by
  cases v with
  | string s => exact .pure trivial
  | _ => exact hc.fail rfl

theorem asString? (method : String) (v : Option Value) : Meets c (Eval.asString? method v) := by
  cases v with
  | none => exact .pure trivial
  | some v =>
    cases v with
    | null => exact .pure trivial
    | undefined => exact .pure trivial
    | _ => exact (hc.asString method _).map fun _ _ => trivial

theorem asInt (method : String) (v : Value) : Meets c (Eval.asInt method v) := by
  cases v with
  | int i => exact .pure trivial
  | _ => exact hc.fail rfl

theorem asLimit (method : String) (v : Option Value) : Meets c (Eval.asLimit method v) := by
  cases v with
  | none => exact .pure trivial
  | some v => exact hc.asInt method v

omit hc in
theorem beyondSize_of_lt {i : Int}
    (h : (decide (i < -Eval.maxSize - 1) || decide (Eval.maxSize < i)) = true) : BeyondSize i := by
  rw [Eval.maxSize, Bool.or_eq_true, decide_eq_true_eq, decide_eq_true_eq] at h
  unfold BeyondSize
  omega

theorem asSize (i : Int) (whole : Nat) : Meets c (Eval.asSize i whole) := by
  unfold Eval.asSize
  split
  · rename_i h
    exact hc.escape (beyondSize_of_lt h)
  · exact .pure trivial

/-! ### Members and slices -/

theorem builtinMember (v : Value) (name : Text) : Gives c (Eval.builtinMember v name) := by
  unfold Eval.builtinMember
  cases v with
  | string s =>
    dsimp only
    split
    · exact .pure (hc.plain rfl)
    · split
      · exact hc.newMethod rfl
      · exact .pure (hc.plain rfl)
  | array items =>
    dsimp only
    split
    · exact .pure (hc.plain rfl)
    · exact .pure (hc.plain rfl)
  | object r =>
    dsimp only
    split
    · exact hc.newMethod rfl
    · exact .pure (hc.plain rfl)
  | _ => exact .pure (hc.plain rfl)

theorem integerText (i : Int) : Meets c (Eval.integerText i) := by
  unfold Eval.integerText
  split
  · exact .pure trivial
  · rename_i h
    exact hc.escape (Nat.not_lt.mp h)

theorem numberText (n : Number) : Meets c (Eval.numberText n) := by
  cases n with
  | int i => exact hc.integerText i
  | float f => exact .pure trivial

theorem element (kind : ValueKind) (items : List α) (i : Int) :
    Returns c (· ∈ items) (Eval.element kind items i) := by
  unfold Eval.element
  dsimp only
  split
  · rename_i x hx
    obtain ⟨-, hx⟩ := Option.ite_none_left_eq_some.mp hx
    exact .pure (List.mem_of_getElem? hx)
  · exact (hc.integerText i).bind fun _ => hc.fail rfl

theorem lookupMember {object : Value} (h : c.value object) (key : Value) :
    Gives c (Eval.lookupMember object key) := by
  unfold Eval.lookupMember
  cases object with
  | object r =>
    cases key with
    | string name =>
      refine (hc.slotsOf r).bind fun slots hslots => ?_
      cases hname : slots.lookup name with
      | none => exact hc.builtinMember _ name
      | some v => exact .pure (hslots _ (mem_of_lookup hname))
    | _ => exact hc.fail rfl
  | array items =>
    cases key with
    | int i => exact (hc.element .array items i).mono (hc.array_iff.mp h)
    | string name => exact hc.builtinMember _ name
    | _ => exact hc.fail rfl
  | string s =>
    cases key with
    | int i => exact (hc.element .string s.toList i).bind fun _ _ => .pure (hc.plain rfl)
    | string name => exact hc.builtinMember _ name
    | _ => exact hc.fail rfl
  | _ =>
    cases key with
    | string name => exact hc.builtinMember _ name
    | _ => exact hc.fail rfl

theorem sliceBound (v : Value) : Meets c (Eval.sliceBound v) := by
  cases v with
  | int i => exact .pure trivial
  | undefined => exact .pure trivial
  | _ => exact hc.fail rfl

theorem slice {object : Value} (h : c.value object) (start stop step : Option Int) :
    Gives c (Eval.slice object start stop step) := by
  unfold Eval.slice
  split
  · exact hc.fail rfl
  cases object with
  | array items =>
    exact .pure (hc.array_iff.mpr fun v hv => hc.array_iff.mp h v (Slice.mem_of_mem_pick hv))
  | string s => exact .pure (hc.plain rfl)
  | _ => exact hc.fail rfl

/-! ### Operators -/

omit hc in
theorem combine_error {ints : Int → Int → Int} {floats : Float → Float → Float} {a b : Number}
    {i : Int} (h : Number.combine ints floats a b = .error i) : Double.ofInt? i = none := by
  unfold Number.combine at h
  split at h
  · cases h
  · cases h
  · split at h
    · cases h
    · cases h
      assumption
  · split at h
    · cases h
    · cases h
      assumption

theorem inRange {op : String} (hop : op ∈ mixedOperators) {ints : Int → Int → Int}
    {floats : Float → Float → Float} (a b : Number) :
    Gives c (Eval.inRange op (Number.combine ints floats a b)) := by
  cases h : Number.combine ints floats a b with
  | error i => exact hc.escape ⟨hop, combine_error h⟩
  | ok n => exact .pure (hc.plain (Value.isPlain_ofNumber n))

theorem numeric (op : String) (a b : Number) : Gives c (Eval.numeric op a b) := by
  unfold Eval.numeric
  split
  case h_4 =>
    split
    · exact hc.fail rfl
    · split
      · exact .pure (hc.plain (Value.isPlain_ofNumber _))
      · exact (hc.numberText a).bind fun _ => (hc.numberText b).bind fun _ => hc.fail rfl
  case h_5 =>
    split
    · exact hc.fail rfl
    · exact hc.inRange (by decide) a b
  case h_10 => exact hc.fail rfl
  all_goals first | exact hc.inRange (by decide) a b | exact .pure (hc.plain rfl)

theorem sum {left right : Value} (hleft : c.value left) (hright : c.value right) :
    Gives c (Eval.sum left right) := by
  have joined (v : Value) (t : Text) : Gives c (do return Value.string ((← Eval.textOf v) ++ t)) :=
    (hc.textOf v).bind fun _ => .pure (hc.plain rfl)
  unfold Eval.sum
  cases left with
  | array a =>
    cases right with
    | array b =>
      rw [hc.array_iff] at hleft hright
      exact .pure (hc.array_iff.mpr (List.forall_mem_append.mpr ⟨hleft, hright⟩))
    | string t => exact joined _ t
    | _ => exact hc.fail rfl
  | string s => exact (hc.textOf right).bind fun _ => .pure (hc.plain rfl)
  | _ =>
    cases right with
    | string t => exact joined _ t
    | _ => exact hc.fail rfl

theorem contained (op : String) (left right : Value) : Meets c (Eval.contained op left right) := by
  unfold Eval.contained
  cases right with
  | array items => exact hc.finite _
  | string t =>
    cases left with
    | string s => exact .pure trivial
    | _ => exact hc.fail rfl
  | object r =>
    cases left with
    | string name => exact (hc.slotsOf r).bind fun _ _ => .pure trivial
    | _ => exact hc.fail rfl
  | _ => cases left <;> exact hc.fail rfl

theorem present (op : String) {left right : Value} (hleft : c.value left) (hright : c.value right) :
    Gives c (Eval.present op left right) := by
  unfold Eval.present
  split
  · exact (hc.textOf left).bind fun _ => (hc.textOf right).bind fun _ => .pure (hc.plain rfl)
  split
  · exact hc.numeric op _ _
  split
  · exact hc.sum hleft hright
  split
  · exact (hc.contained op left right).bind fun _ => .pure (hc.plain rfl)
  · exact hc.fail rfl

theorem binary (op : String) {left right : Value} (hleft : c.value left) (hright : c.value right) :
    Gives c (Eval.binary op left right) := by
  unfold Eval.binary
  split
  · exact (hc.equal left right).bind fun _ => .pure (hc.plain rfl)
  split
  · exact (hc.equal left right).bind fun _ => .pure (hc.plain rfl)
  split
  · split
    · exact .pure (hc.plain rfl)
    · exact hc.fail rfl
  · exact hc.fail rfl
  · exact hc.fail rfl
  · exact hc.fail rfl
  · exact hc.present op hleft hright

/-! ### Methods -/

theorem affixed (method : String) (fits : List Codepoint → List Codepoint → Bool) (s : Text)
    (a : Args) : Gives c (Eval.affixed method fits s a) := by
  unfold Eval.affixed
  refine (hc.expectCount a _ 1 1).bind fun _ => ?_
  split
  · exact (Meets.mapM fun v _ => hc.asString method v).bind fun _ => .pure (hc.plain rfl)
  · exact (hc.asString method _).bind fun _ => .pure (hc.plain rfl)
  · exact hc.fail rfl

theorem mapped (m : StringMethod) (f : List Codepoint → List Codepoint) (s : Text) (a : Args) :
    Gives c (Eval.mapped m f s a) := by
  unfold Eval.mapped
  exact (hc.expectCount a _ 0 0).bind fun _ => .pure (hc.plain rfl)

theorem pairs {slots : Slots Text Value} (h : ∀ e ∈ slots, c.value e.2) :
    c.value (Eval.pairs slots) := by
  refine hc.array_iff.mpr fun v hv => ?_
  obtain ⟨⟨k, w⟩, he, rfl⟩ := List.mem_map.mp hv
  refine hc.array_iff.mpr (List.forall_mem_cons.mpr ⟨hc.plain rfl, ?_⟩)
  exact List.forall_mem_singleton.mpr (h _ he)

section
variable {a : Args} (ha : a.Allowed c)
include ha

theorem stripped (method : String) (how : (Codepoint → Bool) → List Codepoint → List Codepoint)
    (s : Text) : Gives c (Eval.stripped method how s a) := by
  unfold Eval.stripped
  refine (hc.pick ha _ _).bind fun picked _ => (hc.asString? _ _).bind fun chars => ?_
  cases chars with
  | none => exact .pure (hc.plain rfl)
  | some chars => exact .pure (hc.plain rfl)

theorem splitString (s : Text) : Gives c (Eval.splitString s a) := by
  unfold Eval.splitString
  refine (hc.pick ha _ _).bind fun picked _ => (hc.asLimit _ _).bind fun limit => ?_
  refine (hc.asString? _ _).bind fun sep => (hc.asSize _ _).bind fun n => ?_
  have hpieces (pieces : List (List Codepoint)) : c.value (.array (pieces.map .ofPoints)) :=
    hc.array_iff.mpr (List.forall_mem_map.mpr fun _ _ => hc.plain rfl)
  cases sep with
  | none => exact .pure (hpieces _)
  | some sep =>
    dsimp only
    split
    · exact hc.escape trivial
    · exact .pure (hpieces _)

theorem replaceInString (s : Text) : Gives c (Eval.replaceInString s a) := by
  unfold Eval.replaceInString
  refine (hc.pick ha _ _).bind fun picked _ => ?_
  split
  · refine (hc.asLimit _ _).bind fun limit => (hc.asString _ _).bind fun old => ?_
    exact (hc.asString _ _).bind fun new => (hc.asSize _ _).bind fun n => .pure (hc.plain rfl)
  · exact hc.fail rfl

theorem callStringMethod (s : Text) (m : StringMethod) : Gives c (Eval.callStringMethod s m a) := by
  cases m with
  | upper => exact hc.mapped _ _ s a
  | lower => exact hc.mapped _ _ s a
  | title => exact hc.mapped _ _ s a
  | capitalize => exact hc.mapped _ _ s a
  | strip => exact hc.stripped ha _ _ s
  | lstrip => exact hc.stripped ha _ _ s
  | rstrip => exact hc.stripped ha _ _ s
  | startswith => exact hc.affixed _ _ s a
  | endswith => exact hc.affixed _ _ s a
  | split => exact hc.splitString ha s
  | replace => exact hc.replaceInString ha s

theorem callObjectMethod (r : ObjectRef) (m : ObjectMethod) :
    Gives c (Eval.callObjectMethod r m a) := by
  unfold Eval.callObjectMethod
  cases m with
  | get =>
    refine (hc.pick ha _ _).bind fun picked hpicked => ?_
    split
    · exact hc.fail rfl
    · refine (hc.asString _ _).bind fun name => (hc.slotsOf r).bind fun slots hslots => .pure ?_
      exact Slots.forall_lookup_getD hslots name
        (Slots.forall_lookup_getD hpicked "default" (hc.plain rfl))
  | items =>
    exact (hc.expectCount a _ 0 0).bind fun _ => (hc.slotsOf r).bind fun _ h => .pure (hc.pairs h)
  | keys =>
    refine (hc.expectCount a _ 0 0).bind fun _ => (hc.slotsOf r).bind fun slots _ => .pure ?_
    exact hc.array_iff.mpr (List.forall_mem_map.mpr fun _ _ => hc.plain rfl)
  | values =>
    refine (hc.expectCount a _ 0 0).bind fun _ => (hc.slotsOf r).bind fun slots hslots => .pure ?_
    exact hc.array_iff.mpr (List.forall_mem_map.mpr hslots)

end

/-! ### Tests -/

theorem testInt (test : String) (v : Value) : Meets c (Eval.testInt test v) := by
  cases v with
  | int i => exact .pure trivial
  | _ => exact hc.fail rfl

/-- A built-in test fails only on its operand, given as many arguments as it takes. -/
theorem runBuiltinTest (test : BuiltinTest) (v : Value) (args : List Value)
    (h : c.fault (.escape .badCall) ∨ args.length = test.arity) :
    Meets c (Eval.runBuiltinTest test v args) := by
  have hbadCall (hne : args.length ≠ test.arity) : c.fault (.escape .badCall) :=
    h.resolve_right hne
  unfold Eval.runBuiltinTest
  rcases args with _ | ⟨w, ws⟩
  · cases test with
    | odd => exact (hc.testInt _ v).bind fun _ => .pure trivial
    | even => exact (hc.testInt _ v).bind fun _ => .pure trivial
    | equal => exact .throw (hbadCall (by simp [BuiltinTest.arity]))
    | notEqual => exact .throw (hbadCall (by simp [BuiltinTest.arity]))
    | _ => exact .pure trivial
  rcases ws with _ | ⟨w', ws⟩
  · cases test with
    | equal => exact hc.equal v w
    | notEqual => exact (hc.equal v w).bind fun _ => .pure trivial
    | _ => exact .throw (hbadCall (by simp [BuiltinTest.arity]))
  · have hne : (w :: w' :: ws).length ≠ test.arity := by
      cases test <;> simp [BuiltinTest.arity]
    cases test <;> exact .throw (hbadCall hne)

theorem findTest (scope : Scope) (name : Text) :
    Returns c (TestKnown c host) (Eval.findTest scope name) := by
  unfold Eval.findTest
  refine Returns.get.bind fun st hst => ?_
  split
  · rename_i found hfound
    refine .pure (hc.tests.imp_right fun htests => ?_)
    obtain ⟨known, -, hknown⟩ := Option.bind_eq_some_iff.mp hfound
    obtain ⟨test, htest, rfl⟩ := Option.map_eq_some_iff.mp hknown
    exact htests st hst scope known test htest
  · exact hc.fail rfl

theorem runTest {name : String} {test : Test} (v : Value) (args : List Value)
    (h : TestKnown c host (name, test)) : Meets c (Eval.runTest host name test v args) := by
  unfold Eval.runTest
  cases test with
  | builtin test =>
    dsimp only
    split_ifs with hcount
    · exact hc.fail rfl
    · refine hc.runBuiltinTest test v args (h.imp Host.Allowed.badCall ?_)
      rintro ⟨b, hb, hname⟩
      cases hb
      simpa [hname] using hcount
  | host key =>
    have hallowed : host.Allowed c.fault := h.resolve_right (by simp)
    refine Returns.get.bind fun st _ => ?_
    split
    · exact .pure trivial
    · rename_i f hf
      exact .throw (hallowed.fails f (.test hf))

/-! ### Global functions -/

theorem rangeArgument (v : Value) : Meets c (Eval.rangeArgument v) := by
  cases v with
  | int i => exact .pure trivial
  | _ => exact hc.fail rfl

theorem callRange (a : Args) : Gives c (Eval.callRange a) := by
  have hitems (is : List Int) : c.value (.array (is.map .int)) :=
    hc.array_iff.mpr (List.forall_mem_map.mpr fun _ _ => hc.plain rfl)
  unfold Eval.callRange
  dsimp only
  split
  · exact hc.fail_bind rfl
  refine (Meets.mapM fun v _ => hc.rangeArgument v).bind fun bounds => ?_
  split
  · exact hc.fail_bind rfl
  split
  all_goals
    split
    · exact hc.fail_bind rfl
    · exact .pure (hitems _)

theorem callRaise {a : Args} (ha : c.slots a.slots) : Gives c (Eval.callRaise a) := by
  unfold Eval.callRaise
  refine (hc.values ha).bind fun vs => ?_
  cases vs with
  | nil => exact hc.fail rfl
  | cons v vs => exact (hc.textOf v).bind fun _ => hc.fail rfl

theorem callNamespace {a : Args} (ha : c.slots a.slots) : Meets c (Eval.callNamespace a) := by
  unfold Eval.callNamespace
  split
  · exact hc.newObject ha
  · split
    · exact .pure trivial
    · exact hc.fail rfl
  · exact hc.fail rfl

end Contract.Lenient

/-! ### The host -/

namespace Contract.Lenient
open Eval (Meets)
variable {c : Contract} {host : Host}

theorem newHost (hopen : c.Open host) (f : HostFunction) : Meets c (Eval.newFunction (.host f)) :=
  .modifyGet fun st hst => ⟨trivial, hopen.pushHost st f hst⟩

mutual

theorem ofHost (hc : c.Lenient host) (hvalue : ∀ v, c.value v) (h : HostValue)
    (hh : c.Open host ∨ h.isData) : Meets c (Eval.ofHost h) := by
  cases h with
  | list items =>
    unfold Eval.ofHost
    exact (hc.ofHostItems hvalue items hh).bind fun _ => .pure trivial
  | tuple items =>
    unfold Eval.ofHost
    exact (hc.ofHostItems hvalue items hh).bind fun _ => .pure trivial
  | map entries =>
    unfold Eval.ofHost
    refine (hc.ofHostEntries hvalue entries hh).bind fun es => hc.newObject (hc.distinct _ ?_ ?_)
    · exact Slots.nodup_names_putAll (s := []) List.nodup_nil es
    · exact fun e _ => hvalue e.2
  | callable f =>
    unfold Eval.ofHost
    exact newHost (hh.resolve_right nofun) f
  | foreign typeName =>
    unfold Eval.ofHost
    exact hc.fail rfl
  | _ =>
    unfold Eval.ofHost
    exact .pure trivial

theorem ofHostItems (hc : c.Lenient host) (hvalue : ∀ v, c.value v) (hs : List HostValue)
    (hhs : c.Open host ∨ HostValue.allData hs) : Meets c (Eval.ofHostItems hs) := by
  cases hs with
  | nil => exact .pure trivial
  | cons h hs =>
    simp only [HostValue.allData, Bool.and_eq_true] at hhs
    unfold Eval.ofHostItems
    refine (hc.ofHost hvalue h (hhs.imp_right And.left)).bind fun _ => ?_
    exact (hc.ofHostItems hvalue hs (hhs.imp_right And.right)).bind fun _ => .pure trivial

theorem ofHostEntries (hc : c.Lenient host) (hvalue : ∀ v, c.value v)
    (es : List (HostKey × HostValue)) (hes : c.Open host ∨ HostValue.entriesData es) :
    Meets c (Eval.ofHostEntries es) := by
  cases es with
  | nil => exact .pure trivial
  | cons e es =>
    simp only [HostValue.entriesData, Bool.and_eq_true] at hes
    unfold Eval.ofHostEntries
    refine (hc.ofHostEntry hvalue e (hes.imp_right And.left)).bind fun _ => ?_
    exact (hc.ofHostEntries hvalue es (hes.imp_right And.right)).bind fun _ => .pure trivial

theorem ofHostEntry (hc : c.Lenient host) (hvalue : ∀ v, c.value v) (e : HostKey × HostValue)
    (he : c.Open host ∨ HostValue.entryData e) : Meets c (Eval.ofHostEntry e) := by
  obtain ⟨k, h⟩ := e
  unfold Eval.ofHostEntry
  exact (hc.ofHost hvalue h he).bind fun _ => .pure trivial

end

theorem callHost (hc : c.Lenient host) (hvalue : ∀ v, c.value v) (hopen : c.Open host)
    (f : HostFunction) (a : Args) : Meets c (Eval.callHost host f a) := by
  unfold Eval.callHost
  refine (Meets.mapM fun v _ => hc.toHost v).bind fun positional => ?_
  refine (Meets.mapM fun kv _ => (hc.toHost kv.2).bind fun _ => .pure trivial).bind
    fun keywords => ?_
  split
  · exact hc.ofHost hvalue _ (.inl hopen)
  · rename_i e he
    exact .throw (hopen.allowed.fails e (.call he))

end Contract.Lenient
end ChatTemplate
