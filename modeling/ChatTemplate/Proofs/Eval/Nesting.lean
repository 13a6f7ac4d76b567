import ChatTemplate.Proofs.Eval.Conversion
import ChatTemplate.Proofs.Eval.View
import ChatTemplate.Proofs.Template.Declaration

/-!
# Nested scopes

Scopes are opened one inside the other, and names are declared and set in them in any order. A history
(`ScopeHistory`) tells what has been done, and from it alone what each scope holds, what scopes it is
inside of and what a name stands for in it. The store agrees with the history (`ScopeRun.Tracks`), since
every step preserves that. So names are found as in maps nested in one another (`scopes_nest`).
-/

namespace ChatTemplate

/-- What may be done with scopes, which are numbered in the order in which they are opened. -/
inductive ScopeStep
  | root
  | child (parent : Nat)
  | declare (scope : Nat) (name : String) (h : HostValue)
  | set (scope : Nat) (name : String) (v : Value)

/-- What has been done with scopes. -/
inductive ScopeEvent
  | opened (scope : Nat) (parent : Option Nat)
  | stored (scope : Nat) (name : String) (v : Value)

/-- What has been done one after the other, the latest first. -/
abbrev ScopeHistory := List ScopeEvent

/-! ### Histories -/

namespace ScopeHistory
variable {events : ScopeHistory} {parent : Option Nat} {i j k : Nat} {far : List Nat} {x y : String}
  {v : Value}

/-- The value most recently stored under a name in a scope. A root begins with the global functions,
any other scope with nothing. -/
def lastStored (x : String) (i : Nat) : ScopeHistory → Option Value
  | [] => none
  | .opened k parent :: events =>
    if k = i then if parent.isNone then Store.globalVars.lookup x else none
    else lastStored x i events
  | .stored k y v :: events => if k = i ∧ y = x then some v else lastStored x i events

/-- A scope, the scope that it is inside of, the one that this is inside of and so on. -/
def chain (i : Nat) : ScopeHistory → List Nat
  | [] => []
  | .opened k parent :: events =>
    if k = i then i :: (parent.elim [] fun p => chain p events) else chain i events
  | .stored .. :: events => chain i events

/-- The scope `i` is on the chain of the scope `j`, and no scope before it holds the name. -/
def Reaches (events : ScopeHistory) (x : String) (j i : Nat) : Prop :=
  ∃ near far, chain j events = near ++ i :: far ∧ ∀ k ∈ near, lastStored x k events = none

/-- The value under a name in the nearest scope that holds it. -/
def found (events : ScopeHistory) (x : String) (j : Nat) : Option Value :=
  (chain j events).findSome? fun k => lastStored x k events

theorem head_chain (h : chain i events = k :: far) : k = i := by
  induction events with
  | nil => cases h
  | cons e events ih =>
    cases e with
    | opened l parent =>
      rw [chain] at h
      split_ifs at h
      · exact (List.cons.inj h).1.symm
      · exact ih h
    | stored => exact ih h

theorem found_eq_some : found events x j = some v ↔
    ∃ i, Reaches events x j i ∧ lastStored x i events = some v := by
  rw [found, List.findSome?_eq_some_iff]
  constructor
  · rintro ⟨near, i, far, hchain, hv, hnear⟩
    exact ⟨i, ⟨near, far, hchain, hnear⟩, hv⟩
  · rintro ⟨i, ⟨near, far, hchain, hnear⟩, hv⟩
    exact ⟨near, i, far, hchain, hv, hnear⟩

theorem found_eq_none : found events x j = none ↔
    ∀ i ∈ chain j events, lastStored x i events = none :=
  List.findSome?_eq_none_iff

/-- A value is found from the scopes that reach the one in which it is stored. -/
theorem found_stored (h : Reaches events x j i) : found (.stored i x v :: events) x j = some v := by
  obtain ⟨near, far, hchain, hnear⟩ := h
  rw [found, chain, hchain]
  clear hchain
  induction near with
  | nil => simp [lastStored]
  | cons k near ih =>
    obtain ⟨hk, hnear⟩ := List.forall_mem_cons.mp hnear
    rw [List.cons_append, List.findSome?_cons, lastStored, hk]
    by_cases hik : i = k
    · simp [hik]
    · simpa [hik] using ih hnear

/-- From anywhere else, and under any other name, the same is found as before. -/
theorem found_stored_of_not (h : ¬ (x = y ∧ Reaches events x j i)) :
    found (.stored i x v :: events) y j = found events y j := by
  by_cases hxy : x = y
  · subst hxy
    have hreach (near far : List Nat) (hchain : chain j events = near ++ i :: far) :
        ∃ k ∈ near, lastStored x k events ≠ none := by
      by_contra hno
      exact h ⟨rfl, near, far, hchain, by simpa using hno⟩
    rw [found, found, chain]
    generalize chain j events = l at hreach
    induction l with
    | nil => rfl
    | cons k l ih =>
      have hik : i ≠ k := by
        rintro rfl
        obtain ⟨k, hk, -⟩ := hreach [] l rfl
        cases hk
      rw [List.findSome?_cons, List.findSome?_cons, lastStored, if_neg fun h => hik h.1]
      cases hk : lastStored x k events with
      | some w => rfl
      | none =>
        refine ih fun near far hl => ?_
        obtain ⟨m, hm, hheld⟩ := hreach (k :: near) far (by rw [hl]; rfl)
        rcases List.mem_cons.mp hm with rfl | hm
        · exact absurd hk hheld
        · exact ⟨m, hm, hheld⟩
  · simp only [found, chain, lastStored, hxy, and_false, if_false]

/-- A scope that is opened is of no account to scopes that are not inside of it. -/
theorem found_opened (hne : k ≠ j) (hout : k ∉ chain j events) :
    found (.opened k parent :: events) x j = found events x j := by
  rw [found, found, chain, if_neg hne]
  have hsame (i : Nat) (hi : i ∈ chain j events) :
      lastStored x i (.opened k parent :: events) = lastStored x i events := by
    rw [lastStored, if_neg]
    rintro rfl
    exact hout hi
  rw [← List.head?_filterMap, ← List.head?_filterMap, List.filterMap_congr hsame]

end ScopeHistory

/-! ### Runs -/

/-- The store, the scopes that are open and what has been done with them. -/
structure ScopeRun where
  store : Store
  scopes : List Scope
  history : ScopeHistory

namespace ScopeRun
open ScopeHistory

/-- Opens a scope. -/
def opening (s : ScopeRun) (parent : Option Nat) (m : Eval Scope) : ScopeRun :=
  match m.result s.store with
  | .ok scope =>
    ⟨m.after s.store, s.scopes ++ [scope], .opened s.scopes.length parent :: s.history⟩
  | .error _ => { s with store := m.after s.store }

/-- Stores a value under a name, the one that is answered. -/
def storing (s : ScopeRun) (i : Nat) (x : String) (m : Eval Value) : ScopeRun :=
  match m.result s.store with
  | .ok v => ⟨m.after s.store, s.scopes, .stored i x v :: s.history⟩
  | .error _ => { s with store := m.after s.store }

/-- Does one step. Nothing can be done with a scope that is not open. -/
def perform (s : ScopeRun) : ScopeStep → ScopeRun
  | .root => s.opening none Eval.rootScope
  | .child p =>
    match s.scopes[p]? with
    | some scope => s.opening (some p) (Eval.innerScope scope)
    | none => s
  | .declare i x h =>
    match s.scopes[i]? with
    | some scope => s.storing i x (Eval.declare scope x h)
    | none => s
  | .set i x v =>
    match s.scopes[i]? with
    | some scope => s.storing i x (do Eval.bind scope x v; return v)
    | none => s

/-- Does steps one after the other. -/
def run (st : Store) (steps : List ScopeStep) : ScopeRun :=
  steps.foldl perform ⟨st, [], []⟩

/-- The store agrees with the history. The frames from `start` on are those of the scopes. -/
structure Tracks (start : Nat) (s : ScopeRun) : Prop where
  size : s.store.frames.size = start + s.scopes.length
  chain : ∀ i scope, s.scopes[i]? = some scope →
    scope.chain = (chain i s.history).map (start + ·)
  opened : ∀ i, ∀ k ∈ ScopeHistory.chain i s.history, k < s.scopes.length
  vars : ∀ i x, (s.store.frame (start + i)).vars.lookup x = lastStored x i s.history

variable {start : Nat} {s : ScopeRun} {scope : Scope} {i j : Nat} {x y : String}

theorem Tracks.init (st : Store) : Tracks st.frames.size ⟨st, [], []⟩ where
  size := rfl
  chain _ _ := nofun
  opened _ _ := nofun
  vars i x := by
    rw [frame_of_size_le (Nat.le_add_right _ _)]
    rfl

/-- What is found from a scope is what the history says. -/
theorem Tracks.lookup (hs : Tracks start s) (hj : s.scopes[j]? = some scope) (x : String) :
    s.store.lookup scope x = (found s.history x j).getD .undefined := by
  have hvars : (fun r => (s.store.frame r).vars.lookup x) ∘ (start + ·) =
      fun k => lastStored x k s.history := funext fun k => hs.vars k x
  rw [Store.lookup, Store.lookup?, hs.chain j scope hj, List.findSome?_map, hvars, found]

theorem Tracks.inner (hs : Tracks start s) (hi : s.scopes[i]? = some scope) :
    scope.inner = start + i ∧ scope.inner < s.store.frames.size := by
  have hlt : i < s.scopes.length := (List.getElem?_eq_some_iff.mp hi).1
  obtain ⟨k, far, hchain, hinner, -⟩ := List.map_eq_cons_iff.mp (hs.chain i scope hi).symm
  obtain rfl := head_chain hchain
  exact ⟨hinner.symm, by rw [← hinner, hs.size]; exact Nat.add_lt_add_left hlt start⟩

theorem Tracks.held (hs : Tracks start s) (hi : s.scopes[i]? = some scope) (x : String) :
    (s.store.frame scope.inner).vars.lookup x = lastStored x i s.history := by
  rw [(hs.inner hi).1, hs.vars]

/-! ### Opening -/

/-- A new frame for the new scope, which is inside of an open one or of none. -/
theorem Tracks.opening (hs : Tracks start s) (parent : Option Nat) {m : Eval Scope}
    {outer : List FrameRef}
    (hm : Eval.Leads m s.store ⟨s.store.frames.size, outer⟩
      (s.store.pushFrame (if parent.isNone then Store.globalVars else [])))
    (houter : outer = (parent.elim [] fun p => ScopeHistory.chain p s.history).map (start + ·)) :
    Tracks start (s.opening parent m) := by
  unfold ScopeRun.opening
  rw [hm.result, hm.after]
  constructor
  case size =>
    simp only [Store.pushFrame, Array.size_push, List.length_append, List.length_singleton, hs.size]
    rfl
  case chain =>
    intro i scope hi
    rcases Nat.lt_trichotomy i s.scopes.length with hlt | rfl | hgt
    · rw [List.getElem?_append_left hlt] at hi
      rw [ScopeHistory.chain, if_neg (Nat.ne_of_gt hlt)]
      exact hs.chain i scope hi
    · rw [List.getElem?_concat_length] at hi
      cases hi
      rw [ScopeHistory.chain, if_pos rfl, List.map_cons, ← houter, ← hs.size]
      rfl
    · rw [List.getElem?_eq_none (by rwa [List.length_append])] at hi
      cases hi
  case opened =>
    intro i k hk
    rw [List.length_append, List.length_singleton]
    rw [ScopeHistory.chain] at hk
    split_ifs at hk with hi
    · rcases List.mem_cons.mp hk with rfl | hk
      · exact hi ▸ Nat.lt_succ_self _
      · cases parent with
        | none => cases hk
        | some p => exact Nat.lt_succ_of_lt (hs.opened p k hk)
    · exact Nat.lt_succ_of_lt (hs.opened i k hk)
  case vars =>
    intro i x
    rw [Store.Alike.frame_pushFrame, lastStored, hs.size]
    by_cases hi : s.scopes.length = i
    · rw [if_pos (by rw [hi]), if_pos hi]
      split <;> rfl
    · rw [if_neg fun h => hi (Nat.add_left_cancel h).symm, if_neg hi]
      exact hs.vars i x

/-! ### Storing -/

/-- What storing under a name comes to: no frame changes, or the name is bound to the answer. -/
structure Stores (scope : Scope) (x : String) (m : Eval Value) (st : Store) : Prop where
  of_error : ∀ f, m.result st = .error f → st.Grows (m.after st)
  of_ok : ∀ v, m.result st = .ok v → ∃ st', st.Grows st' ∧ m.after st = st'.bind scope.inner x v

theorem stores_set (scope : Scope) (x : String) (v : Value) (st : Store) :
    Stores scope x (do Eval.bind scope x v; return v) st where
  of_error _ := nofun
  of_ok w hw := by
    cases hw
    exact ⟨st, .refl st, rfl⟩

theorem declare_of_held {st : Store} (hheld : ((st.frame scope.inner).vars.lookup x).isSome)
    (h : HostValue) : (Eval.declare scope x h).result st = .error (.error (.redeclared x) none) ∧
      (Eval.declare scope x h).after st = st := by
  unfold Eval.declare
  rw [Eval.result_bind_ok (Eval.result_get st), Eval.after_bind_ok (Eval.result_get st),
    Eval.after_get, if_pos hheld]
  exact ⟨rfl, rfl⟩

theorem result_declare_of_new {st : Store} (hnew : (st.frame scope.inner).vars.lookup x = none)
    (h : HostValue) : (Eval.declare scope x h).result st = (Eval.ofHost h).result st := by
  rw [(declare_eq_bind hnew h).1, Eval.result_bind]
  cases (Eval.ofHost h).result st <;> rfl

theorem stores_declare (scope : Scope) (x : String) (h : HostValue) (st : Store) :
    Stores scope x (Eval.declare scope x h) st := by
  cases hheld : (st.frame scope.inner).vars.lookup x with
  | some w =>
    obtain ⟨hresult, hafter⟩ := declare_of_held (Option.isSome_iff_exists.mpr ⟨w, hheld⟩) h
    constructor <;> rw [hresult, hafter]
    · exact fun _ _ => .refl st
    · exact fun _ => nofun
  | none =>
    have hadds : st.Grows ((Eval.ofHost h).after st) := Eval.Adds.ofHost h st
    obtain ⟨hresult, hafter⟩ := declare_eq_bind hheld h
    constructor <;> rw [hresult, hafter, Eval.result_bind, Eval.after_bind] <;>
      cases (Eval.ofHost h).result st
    case of_error.error f => exact fun _ _ => hadds
    case of_error.ok w => exact fun _ => nofun
    case of_ok.error f => exact fun _ => nofun
    case of_ok.ok w =>
      intro v hv
      cases hv
      exact ⟨_, hadds, rfl⟩

theorem Tracks.storing (hs : Tracks start s) (hi : s.scopes[i]? = some scope) {m : Eval Value}
    (hm : Stores scope x m s.store) : Tracks start (s.storing i x m) := by
  have hframe {st : Store} (hgrows : s.store.Grows st) (r : FrameRef) :
      st.frame r = s.store.frame r := by
    rw [Store.frame, Store.frame, hgrows.frames]
  unfold ScopeRun.storing
  split
  case h_1 v hresult =>
    obtain ⟨st, hgrows, hafter⟩ := hm.of_ok v hresult
    obtain ⟨hinner, hlt⟩ := hs.inner hi
    rw [hafter]
    refine ⟨?_, hs.chain, hs.opened, fun k y => ?_⟩
    · rw [Store.bind, Array.size_modify, hgrows.frames]
      exact hs.size
    · rw [Store.Alike.frame_bind, hgrows.frames, hframe hgrows, lastStored, ← hs.vars k y, hinner]
      by_cases hik : i = k
      · subst hik
        rw [if_pos ⟨rfl, hinner ▸ hlt⟩, Slots.lookup_put]
        simp only [true_and, eq_comm]
      · rw [if_neg fun h => hik (Nat.add_left_cancel h.1), if_neg fun h => hik h.1]
  case h_2 f hresult =>
    have hgrows := hm.of_error f hresult
    exact ⟨by rw [hgrows.frames]; exact hs.size, hs.chain, hs.opened,
      fun k y => by rw [hframe hgrows]; exact hs.vars k y⟩

/-! ### Steps and runs -/

/-- What is open stays open; a scope is opened, a value is stored or there is nothing to tell. -/
inductive Advances (s s' : ScopeRun) : Prop
  | opened (scope : Scope) (parent : Option Nat) (hscopes : s'.scopes = s.scopes ++ [scope])
      (hhistory : s'.history = .opened s.scopes.length parent :: s.history)
  | stored (i : Nat) (x : String) (v : Value) (hscopes : s'.scopes = s.scopes)
      (hhistory : s'.history = .stored i x v :: s.history)
  | same (hscopes : s'.scopes = s.scopes) (hhistory : s'.history = s.history)

theorem advances_opening (s : ScopeRun) (parent : Option Nat) (m : Eval Scope) :
    s.Advances (s.opening parent m) := by
  unfold opening
  split
  · exact .opened _ _ rfl rfl
  · exact .same rfl rfl

theorem advances_storing (s : ScopeRun) (i : Nat) (x : String) (m : Eval Value) :
    s.Advances (s.storing i x m) := by
  unfold storing
  split
  · exact .stored _ _ _ rfl rfl
  · exact .same rfl rfl

theorem advances_perform (s : ScopeRun) (step : ScopeStep) : s.Advances (s.perform step) := by
  cases step with
  | root => exact advances_opening s none Eval.rootScope
  | child p =>
    rw [perform]
    split
    · exact advances_opening ..
    · exact .same rfl rfl
  | declare | set =>
    rw [perform]
    split
    · exact advances_storing ..
    · exact .same rfl rfl

theorem Tracks.perform (hs : Tracks start s) (step : ScopeStep) : Tracks start (s.perform step) := by
  cases step with
  | root => exact hs.opening none (m := Eval.rootScope) ⟨rfl, rfl⟩ rfl
  | child p =>
    rw [ScopeRun.perform]
    split
    · next scope hp => exact hs.opening (some p) ⟨rfl, rfl⟩ (hs.chain p scope hp)
    · exact hs
  | declare i x h =>
    rw [ScopeRun.perform]
    split
    · next scope hi => exact hs.storing hi (stores_declare scope x h s.store)
    · exact hs
  | set i x v =>
    rw [ScopeRun.perform]
    split
    · next scope hi => exact hs.storing hi (stores_set scope x v s.store)
    · exact hs

theorem tracks_run (st : Store) (steps : List ScopeStep) : Tracks st.frames.size (run st steps) := by
  unfold run
  generalize hinit : (⟨st, [], []⟩ : ScopeRun) = s
  have hs : Tracks st.frames.size s := hinit ▸ .init st
  clear hinit
  induction steps generalizing s with
  | nil => exact hs
  | cons step steps ih => exact ih _ (hs.perform step)

/-- Scopes that are open stay open. -/
theorem Advances.scopes_eq {s' : ScopeRun} (h : s.Advances s') (hj : s.scopes[j]? = some scope) :
    s'.scopes[j]? = some scope := by
  have hlt : j < s.scopes.length := (List.getElem?_eq_some_iff.mp hj).1
  cases h with
  | opened new parent hscopes => rw [hscopes, List.getElem?_append_left hlt, hj]
  | stored i x v hscopes | same hscopes => rw [hscopes, hj]

/-- What is found from an open scope changes only by what is stored where that scope finds it. -/
theorem Tracks.found_advances {s' : ScopeRun} (hs : Tracks start s) (h : s.Advances s')
    (hj : j < s.scopes.length)
    (hno : ¬ ∃ i v, s'.history = .stored i y v :: s.history ∧ Reaches s.history y j i) :
    found s'.history y j = found s.history y j := by
  cases h with
  | opened scope parent hscopes hhistory =>
    have hout : s.scopes.length ∉ ScopeHistory.chain j s.history := fun hmem =>
      Nat.lt_irrefl _ (hs.opened j _ hmem)
    rw [hhistory, found_opened (Nat.ne_of_gt hj) hout]
  | stored i x v hscopes hhistory =>
    rw [hhistory, found_stored_of_not]
    rintro ⟨rfl, hreaches⟩
    exact hno ⟨i, v, hhistory, hreaches⟩
  | same hscopes hhistory => rw [hhistory]

end ScopeRun

open ScopeHistory ScopeRun

/-- Nested scopes are like maps nested in one another, whatever is opened, declared and set in whatever
order. A name stands for the value most recently stored under it in the nearest scope that holds it, out
from where it is looked up, and is undefined if none does. To declare a name is an error of syntax if and
only if that very scope holds it, and otherwise fails only if its value does not convert; where it fails,
no scope changes. By one more step a name gets to stand for another value only where that is stored under
it, and only in the scopes that reach the scope where it is stored before any other that holds it. -/
theorem scopes_nest (st : Store) (steps : List ScopeStep) :
    let s := run st steps
    ∀ j scope, s.scopes[j]? = some scope →
      (∀ x,
        (∃ i v, Reaches s.history x j i ∧ lastStored x i s.history = some v ∧
          s.store.lookup scope x = v) ∨
        (∀ i ∈ chain j s.history, lastStored x i s.history = none) ∧
          s.store.lookup scope x = .undefined) ∧
      (∀ x h,
        let m := Eval.declare scope x h
        ((∃ cause pos, m.result s.store = .error (.error cause pos) ∧ cause.kind = .malformed) ↔
          (lastStored x j s.history).isSome) ∧
        ((lastStored x j s.history).isSome →
          m.result s.store = .error (.error (.redeclared x) none) ∧ m.after s.store = s.store) ∧
        (lastStored x j s.history = none → m.result s.store = (Eval.ofHost h).result s.store) ∧
        ∀ f, m.result s.store = .error f → s.store.Grows (m.after s.store)) ∧
      ∀ step x,
        let s' := s.perform step
        (∀ i v, s'.history = .stored i x v :: s.history → Reaches s.history x j i →
          s'.store.lookup scope x = v) ∧
        ((¬ ∃ i v, s'.history = .stored i x v :: s.history ∧ Reaches s.history x j i) →
          s'.store.lookup scope x = s.store.lookup scope x) := by
  intro s j scope hj
  have hs : Tracks st.frames.size s := tracks_run st steps
  refine ⟨fun x => ?_, fun x h => ?_, fun step x => ?_⟩
  · rw [hs.lookup hj]
    cases hfound : found s.history x j with
    | some v =>
      obtain ⟨i, hreaches, hv⟩ := found_eq_some.mp hfound
      exact .inl ⟨i, v, hreaches, hv, rfl⟩
    | none => exact .inr ⟨found_eq_none.mp hfound, rfl⟩
  · have hheld := hs.held hj x
    rw [← hheld]
    refine ⟨⟨?_, fun hsome => ?_⟩, fun hsome => declare_of_held hsome h,
      fun hnone => result_declare_of_new hnone h, (stores_declare scope x h s.store).of_error⟩
    · rintro ⟨cause, pos, hfault, hkind⟩
      refine Option.isSome_iff_ne_none.mpr fun hnone => ?_
      rw [result_declare_of_new hnone h] at hfault
      obtain ⟨t, -, ht⟩ := (Eval.ofHost_refuses h).fault_eq hfault
      cases ht
      cases hkind
    · exact ⟨_, _, (declare_of_held hsome h).1, rfl⟩
  · have hadvances := advances_perform s step
    have hlookup := (hs.perform step).lookup (hadvances.scopes_eq hj) x
    refine ⟨fun i v hhistory hreaches => ?_, fun hno => ?_⟩
    · rw [hlookup, hhistory, found_stored hreaches]
      rfl
    · rw [hlookup, hs.found_advances hadvances (List.getElem?_eq_some_iff.mp hj).1 hno, hs.lookup hj]

/-- In a scope inside the root, a variable of the root and a global function may be declared anew, once
each. What is set in the root afterwards is seen inside where the name is not declared there. -/
theorem scopes_nest_shadowing :
    let s := run .initial [.root, .child 0, .declare 0 "x" (.int 1), .declare 1 "range" (.int 2)]
    let inner : Scope := ⟨1, [0]⟩
    s.scopes[1]? = some inner ∧
    (Eval.declare inner "x" .null).result s.store = .ok .null ∧
    (Eval.declare inner "range" .null).result s.store =
      .error (.error (.redeclared "range") none) ∧
    (s.perform (.set 0 "x" .null)).store.lookup inner "x" = .null ∧
    (s.perform (.set 0 "range" .null)).store.lookup inner "range" = s.store.lookup inner "range" := by
  intro s inner
  have hinner : s.scopes[1]? = some inner := rfl
  have hheld : lastStored "range" 1 s.history = some (.int 2) := rfl
  obtain ⟨-, hdeclare, hstep⟩ := scopes_nest .initial
    [.root, .child 0, .declare 0 "x" (.int 1), .declare 1 "range" (.int 2)] 1 inner hinner
  refine ⟨hinner, (hdeclare "x" .null).2.2.1 rfl,
    ((hdeclare "range" .null).2.1 (by rw [hheld]; rfl)).1,
    (hstep (.set 0 "x" .null) "x").1 0 .null rfl ⟨[1], [], rfl, ?_⟩,
    (hstep (.set 0 "range" .null) "range").2 ?_⟩
  · exact List.forall_mem_singleton.mpr rfl
  · rintro ⟨i, v, hhistory, near, far, hchain, hnear⟩
    cases hhistory
    have hpath : chain 1 s.history = [1, 0] := rfl
    rw [hpath] at hchain
    cases near with
    | nil => cases hchain
    | cons k near =>
      obtain ⟨rfl, -⟩ := List.cons.inj hchain
      exact absurd (hheld.symm.trans (hnear 1 List.mem_cons_self)) (Option.some_ne_none _)

end ChatTemplate
