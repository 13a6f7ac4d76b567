import ChatTemplate.Proofs.Eval.Dependence
import ChatTemplate.Proofs.Eval.Homes
import ChatTemplate.Proofs.Eval.Macros
import ChatTemplate.Proofs.Eval.Rehousing
import Mathlib.Logic.Function.Basic

/-!
# Two runs that come to one call block

The stores of two runs have a call block in common (`Store.Akin`) if paired objects have the same
members, paired functions do the same, and from the scopes in which paired call blocks were written
names have the same values; the frames may be others, and differently many. To compare the two, each
call block is given a home of its own, a single frame that binds what it sees (`Store.rehoused`).
Then paired call blocks are at home in one and the same frame, and there the stores are alike in a
`View`. So both runs print the same (`Eval.callers_agree`).
-/

namespace ChatTemplate

/-! ### What two runs have in common at a call block -/

/-- The functions do the same with paired references, look up names that matter only, and call
blocks were written where these names have the same values. -/
inductive Function.Akin (p : Pairing) (names : Set String) (st st' : Store) :
    Function → Function → Prop
  | range : Akin p names st st' .range .range
  | raiseException : Akin p names st st' .raiseException .raiseException
  | newNamespace : Akin p names st st' .newNamespace .newNamespace
  | stringMethod (s : Text) (m : StringMethod) :
      Akin p names st st' (.stringMethod s m) (.stringMethod s m)
  | objectMethod {r s : ObjectRef} (h : p.objects r s) (m : ObjectMethod) :
      Akin p names st st' (.objectMethod r m) (.objectMethod s m)
  | defined (name : String) (params : List Param) (body : List Stmt)
      (h : ∀ n ∈ (Function.defined name params body).names, n ∈ names) :
      Akin p names st st' (.defined name params body) (.defined name params body)
  | caller (params : List String) (body : List Stmt) {home home' : Scope}
      (h : ∀ n ∈ (Function.caller params body home).names, n ∈ names)
      (hsame : ∀ n ∈ names, Option.Rel (Value.Alike p) (st.lookup? home.chain n)
        (st'.lookup? home'.chain n)) :
      Akin p names st st' (.caller params body home) (.caller params body home')
  | host (f : HostFunction) : Akin p names st st' (.host f) (.host f)

namespace Function

/-- A call block that is at home in `s` instead. -/
def withHome (s : Scope) : Function → Function
  | .caller params body _ => .caller params body s
  | f => f

theorem withHome_of_ne {f : Function} (h : ∀ params body home, f ≠ .caller params body home)
    (s : Scope) : f.withHome s = f := by
  cases f with
  | caller params body home => exact absurd rfl (h params body home)
  | _ => rfl

end Function

/-- Paired objects have the same members, and paired functions do the same. All else is different,
the frames and how many there are included. -/
structure Store.Akin (p : Pairing) (names : Set String) (st st' : Store) : Prop where
  objects_lt : ∀ r s, p.objects r s → r < st.objects.size ∧ s < st'.objects.size
  functions_lt : ∀ r s, p.functions r s → r < st.functions.size ∧ s < st'.functions.size
  objects : ∀ r s, p.objects r s → Slots.Related (Value.Alike p) (st.slots r) (st'.slots s)
  functions : ∀ r s, p.functions r s →
    Function.Akin p names st st' (st.function r) (st'.function s)
  homed : st.Homed
  homed' : st'.Homed

/-! ### One frame for all that a call block sees -/

namespace Store
variable {st : Store} {size : Nat} {place : FunctionRef → FrameRef}

/-- The bindings of all frames of a chain, of which the nearest is found first. -/
def bindings (st : Store) (chain : List FrameRef) : Slots String Value :=
  chain.flatMap fun r => (st.frame r).vars

theorem lookup?_singleton (st : Store) (r : FrameRef) (n : String) :
    st.lookup? [r] n = (st.frame r).vars.lookup n := by
  rw [lookup?, List.findSome?_cons]
  cases (st.frame r).vars.lookup n <;> rfl

theorem lookup_bindings (st : Store) (chain : List FrameRef) (n : String) :
    (st.bindings chain).lookup n = st.lookup? chain n := by
  induction chain with
  | nil => rfl
  | cons r chain ih =>
    have hcons : st.bindings (r :: chain) = (st.frame r).vars ++ st.bindings chain :=
      List.flatMap_cons
    rw [hcons, List.lookup_append, ih, lookup?, lookup?, List.findSome?_cons]
    cases (st.frame r).vars.lookup n <;> rfl

/-- The store with other frames: each call block is at home in a frame of its own, which binds what
is seen from where it was written. -/
noncomputable def rehoused (st : Store) (size : Nat) (place : FunctionRef → FrameRef) : Store where
  frames := Array.ofFn fun k : Fin size =>
    ⟨st.bindings (st.function (Function.invFun place k)).homeChain, []⟩
  objects := st.objects
  functions := st.functions.mapIdx fun r f => f.withHome ⟨place r, []⟩

theorem frames_size_rehoused (st : Store) (size : Nat) (place : FunctionRef → FrameRef) :
    (st.rehoused size place).frames.size = size := Array.size_ofFn

theorem frame_rehoused (hplace : Function.Injective place) {r : FunctionRef} (hr : place r < size) :
    (st.rehoused size place).frame (place r) = ⟨st.bindings (st.function r).homeChain, []⟩ := by
  simp [frame, rehoused, hr, Function.leftInverse_invFun hplace r]

theorem function_rehoused (st : Store) (size : Nat) (place : FunctionRef → FrameRef)
    (r : FunctionRef) :
    (st.rehoused size place).function r = (st.function r).withHome ⟨place r, []⟩ := by
  unfold function rehoused
  rw [Array.getElem?_mapIdx]
  cases st.functions[r]? <;> rfl

/-- The store and the same one with other frames, as they are before two runs. -/
noncomputable def both (st : Store) (size : Nat) (place : FunctionRef → FrameRef) (i : Bool) :
    Store :=
  if i then st.rehoused size place else st

variable (hhomed : st.Homed) (hplace : Function.Injective place)
  (hsize : ∀ r < st.functions.size, place r < size)
include hhomed hplace hsize

/-- From its own frame a call block sees what it sees from where it was written. -/
theorem sameChains_rehoused {r : FunctionRef} {params : List String} {body : List Stmt}
    {home : Scope} (hr : st.function r = .caller params body home) :
    SameChains (st.both size place) fun i =>
      ((if i then ⟨place r, []⟩ else home : Scope)).chain := by
  have hlt : r < st.functions.size :=
    lt_size_of_homeChain (k := home.inner) (by rw [hr]; exact List.mem_cons_self)
  refine .older (fun i k hk => ?_) fun n => ?_
  · cases i with
    | false => exact hhomed r k (by rw [hr]; exact hk)
    | true =>
      obtain rfl := List.mem_singleton.mp hk
      exact (frames_size_rehoused st size place).symm ▸ hsize r hlt
  · have hchain : (st.function r).homeChain = home.chain := by rw [hr]; rfl
    have hframe : (st.rehoused size place).frame (place r) = _ :=
      frame_rehoused hplace (hsize r hlt)
    show st.lookup? home.chain n = (st.rehoused size place).lookup? [place r] n
    rw [lookup?_singleton, hframe, lookup_bindings, hchain]

/-- So nothing is changed by giving them these homes. -/
theorem rehoused_both : Store.Rehoused (st.both size place) (st.both size place) where
  objects := rfl
  functions_size := Array.size_mapIdx.symm
  functions r := by
    by_cases h : ∃ params body home, st.function r = .caller params body home
    · obtain ⟨params, body, home, hr⟩ := h
      have hboth : (fun i => (st.both size place i).function r) = fun i =>
          .caller params body (if i then ⟨place r, []⟩ else home) := by
        funext i
        cases i with
        | false => exact hr
        | true => exact (function_rehoused st size place r).trans (by rw [hr]; rfl)
      rw [hboth]
      exact .caller params body ⟨_, sameChains_rehoused hhomed hplace hsize hr⟩
    · have hne : ∀ params body home, st.function r ≠ .caller params body home :=
        fun params body home hr => h ⟨params, body, home, hr⟩
      have hboth : (fun i => (st.both size place i).function r) = fun _ => st.function r := by
        funext i
        cases i with
        | false => rfl
        | true => exact (function_rehoused st size place r).trans (Function.withHome_of_ne hne _)
      rw [hboth]
      exact .same hne
  frames_size := ⟨0, fun _ => rfl⟩
  older _ _ _ := rfl
  newer k := by
    rw [frame_of_size_le (Nat.le_add_right _ k), frame_of_size_le (Nat.le_add_right _ k)]
  tests k := by rw [frame_of_size_le (Nat.le_add_right _ k)]

end Store

/-! ### More pairs -/

/-- The pairs of `R`, and those of the references that are yet to be given out, in order. -/
def WithFresh (R : Nat → Nat → Prop) (k l r s : Nat) : Prop := R r s ∨ ∃ i, r = k + i ∧ s = l + i

theorem WithFresh.biUnique {R : Nat → Nat → Prop} {k l : Nat} (h : Relator.BiUnique R)
    (hlt : ∀ r s, R r s → r < k ∧ s < l) : Relator.BiUnique (WithFresh R k l) := by
  constructor
  · rintro r r' s (hr | ⟨i, rfl, rfl⟩) (hr' | ⟨j, rfl, hj⟩)
    · exact h.1 hr hr'
    · exact absurd (hlt r s hr).2 (by omega)
    · exact absurd (hlt r' _ hr').2 (by omega)
    · omega
  · rintro r s s' (hs | ⟨i, rfl, rfl⟩) (hs' | ⟨j, hj, rfl⟩)
    · exact h.2 hs hs'
    · exact absurd (hlt r s hs).1 (by omega)
    · exact absurd (hlt _ s' hs').1 (by omega)
    · omega

namespace Pairing
variable {p : Pairing} {size : Nat}

open Classical in
/-- The reference that goes with a function, or one that goes with none. -/
noncomputable def partner (p : Pairing) (size : Nat) (r : FunctionRef) : Nat :=
  if h : ∃ s, p.functions r s then h.choose else size + r

theorem partner_eq {r s : FunctionRef} (h : p.functions r s) : p.partner size r = s := by
  have hex : ∃ s, p.functions r s := ⟨s, h⟩
  rw [partner, dif_pos hex]
  exact p.functions_unique.2 hex.choose_spec h

theorem partner_of_not_exists {r : FunctionRef} (h : ¬∃ s, p.functions r s) :
    p.partner size r = size + r := dif_neg h

variable (hlt : ∀ r s, p.functions r s → s < size)
include hlt

theorem partner_injective : Function.Injective (p.partner size) := by
  intro r r' heq
  have hne {r r' s : FunctionRef} (hs : p.functions r s) : s ≠ size + r' := fun hs' =>
    absurd (hs' ▸ hlt r s hs) (Nat.not_lt.mpr (Nat.le_add_right size r'))
  by_cases hr : ∃ s, p.functions r s <;> by_cases hr' : ∃ s, p.functions r' s
  · obtain ⟨s, hs⟩ := hr
    obtain ⟨s', hs'⟩ := hr'
    rw [partner_eq hs, partner_eq hs'] at heq
    exact p.functions_unique.1 hs (heq ▸ hs')
  · obtain ⟨s, hs⟩ := hr
    rw [partner_eq hs, partner_of_not_exists hr'] at heq
    exact absurd heq (hne hs)
  · obtain ⟨s', hs'⟩ := hr'
    rw [partner_of_not_exists hr, partner_eq hs'] at heq
    exact absurd heq.symm (hne hs')
  · rw [partner_of_not_exists hr, partner_of_not_exists hr'] at heq
    exact Nat.add_left_cancel heq

theorem partner_lt {r n : Nat} (hr : r < n) : p.partner size r < size + n := by
  by_cases h : ∃ s, p.functions r s
  · obtain ⟨s, hs⟩ := h
    rw [partner_eq hs]
    exact Nat.lt_add_right n (hlt r s hs)
  · rw [partner_of_not_exists h]
    omega

end Pairing

/-! ### Two runs -/

namespace Store.Akin
variable {p : Pairing} {names : Set String} {st st' : Store} (h : Store.Akin p names st st')

/-- The view of the runs whose own frames begin at `base`, when paired call blocks are at home in
the frame of the number of the second one. -/
def view (h : Store.Akin p names st st') (base : FrameRef) : View where
  objects := WithFresh p.objects st.objects.size st'.objects.size
  functions := WithFresh p.functions st.functions.size st'.functions.size
  objects_unique := WithFresh.biUnique p.objects_unique h.objects_lt
  functions_unique := WithFresh.biUnique p.functions_unique h.functions_lt
  names := names
  base := base
  frames := fun k => ∃ r, p.functions r k

theorem le_view (base : FrameRef) : p.Le (h.view base).toPairing :=
  ⟨fun _ _ => .inl, fun _ _ => .inl⟩

include h

theorem bindings_alike {r s : FunctionRef} (hrs : p.functions r s) {n : String} (hn : n ∈ names) :
    Option.Rel (Value.Alike p) ((st.bindings (st.function r).homeChain).lookup n)
      ((st'.bindings (st'.function s).homeChain).lookup n) := by
  have hakin := h.functions r s hrs
  rw [lookup_bindings, lookup_bindings]
  generalize st.function r = f, st'.function s = g at hakin
  cases hakin with
  | caller params body _ hsame => exact hsame n hn
  | _ => exact .none

theorem function_alike {r s : FunctionRef} (hrs : p.functions r s) (base : FrameRef) :
    ((st.function r).withHome ⟨s, []⟩).Alike (h.view base) ((st'.function s).withHome ⟨s, []⟩) := by
  have hakin := h.functions r s hrs
  generalize st.function r = f, st'.function s = g at hakin
  cases hakin with
  | range => exact .range
  | raiseException => exact .raiseException
  | newNamespace => exact .newNamespace
  | stringMethod t m => exact .stringMethod t m
  | objectMethod hr m => exact .objectMethod (Or.inl hr) m
  | defined name params body hnames => exact .defined name params body hnames
  | caller params body hnames =>
    refine .caller params body ⟨s, []⟩ hnames fun k hk => .inr ?_
    obtain rfl := List.mem_singleton.mp hk
    exact ⟨r, hrs⟩
  | host f => exact .host f

/-- With these homes the stores hold the same, as far as the view goes. -/
theorem rehoused_alike {base : FrameRef} (hbase : base = st'.functions.size + st.functions.size) :
    (st.rehoused base (p.partner st'.functions.size)).Alike (h.view base)
      (st'.rehoused base id) := by
  have hlt : ∀ r s, p.functions r s → s < st'.functions.size := fun r s hrs =>
    (h.functions_lt r s hrs).2
  constructor
  case frames_size => rw [frames_size_rehoused, frames_size_rehoused]
  case base_le => exact Nat.le_of_eq (frames_size_rehoused ..).symm
  case vars =>
    rintro k (hk | ⟨r, hrk⟩) n hn
    · rw [frame_of_size_le ((frames_size_rehoused ..).symm ▸ hk),
        frame_of_size_le ((frames_size_rehoused ..).symm ▸ hk)]
      exact .none
    · have hframe : (st.rehoused base (p.partner st'.functions.size)).frame k =
          ⟨st.bindings (st.function r).homeChain, []⟩ := by
        have hpartner : p.partner st'.functions.size r = k := Pairing.partner_eq hrk
        rw [← hpartner]
        refine frame_rehoused (Pairing.partner_injective hlt) ?_
        exact hbase ▸ Pairing.partner_lt hlt (h.functions_lt r k hrk).1
      have hframe' : (st'.rehoused base id).frame k =
          ⟨st'.bindings (st'.function k).homeChain, []⟩ :=
        @frame_rehoused st' base id Function.injective_id k
          (hbase ▸ Nat.lt_add_right _ (hlt r k hrk))
      rw [hframe, hframe']
      rcases optionRel_cases (h.bindings_alike hrk hn) with ⟨hx, hy⟩ | ⟨v, w, hx, hy, hvw⟩
      · rw [hx, hy]
        exact .none
      · rw [hx, hy]
        exact .some (hvw.mono (h.le_view base))
  case tests =>
    intro k hk
    rw [frame_of_size_le ((frames_size_rehoused ..).symm ▸ hk),
      frame_of_size_le ((frames_size_rehoused ..).symm ▸ hk)]
    exact ⟨rfl, rfl⟩
  case fresh_objects => exact fun i => .inr ⟨i, rfl, rfl⟩
  case fresh_functions =>
    intro i
    have hsize (s : Store) (place : FunctionRef → FrameRef) :
        (s.rehoused base place).functions.size = s.functions.size := Array.size_mapIdx
    rw [hsize, hsize]
    exact .inr ⟨i, rfl, rfl⟩
  case objects =>
    rintro r s (hrs | ⟨i, rfl, rfl⟩)
    · exact (h.objects r s hrs).imp fun _ _ hxy =>
        ⟨hxy.1, hxy.2.mono (h.le_view base)⟩
    · have hnil (s : Store) : s.slots (s.objects.size + i) = [] :=
        slots_of_size_le (Nat.le_add_right _ i)
      show Slots.Related _ (st.slots (st.objects.size + i)) (st'.slots (st'.objects.size + i))
      rw [hnil, hnil]
      exact .nil
  case functions =>
    rintro r s (hrs | ⟨i, rfl, rfl⟩)
    · rw [function_rehoused, function_rehoused, Pairing.partner_eq hrs]
      exact h.function_alike hrs base
    · rw [function_rehoused, function_rehoused, function_of_size_le (Nat.le_add_right _ i),
        function_of_size_le (Nat.le_add_right _ i)]
      exact .range

end Store.Akin

theorem Args.Alike.mono {p q : Pairing} (hpq : p.Le q) {a b : Args} (h : a.Alike p b) :
    a.Alike q b where
  positional := forall₂_alike_mono hpq h.positional
  keywords := h.keywords.imp fun _ _ hxy => ⟨hxy.1, hxy.2.mono hpq⟩

namespace Eval
variable {host : Host} {st st' : Store}

theorem callValue_function (ev : Evaluator) (r : FunctionRef) (a : Args) (scope : Scope)
    (st : Store) : Resumes (callValue ev host (.function r) a scope) st
      (callFunction ev host (st.function r) a scope) st :=
  .of_leads (m := get) ⟨rfl, rfl⟩

theorem callCaller_string {ev : Evaluator} {params : List String} {body : List Stmt} {home : Scope}
    {a : Args} {v : Value} (h : (callCaller ev params body home a).result st = .ok v) :
    ∃ t, v = .string t := by
  obtain ⟨inner, -, h⟩ := result_bind_eq_ok h
  obtain ⟨_, -, h⟩ := result_bind_eq_ok h
  obtain ⟨t, -, ⟨⟩⟩ := result_bind_eq_ok h
  exact ⟨t, rfl⟩

/-- What a call block prints is the same at the home of its own that it is given. -/
theorem callCaller_rehoused (host : Host) {depth more : Nat} (hdepth : depth ≤ more)
    {size : Nat} {place : FunctionRef → FrameRef} (hhomed : st.Homed)
    (hplace : Function.Injective place) (hsize : ∀ r < st.functions.size, place r < size)
    {r : FunctionRef} {params : List String} {body : List Stmt} {home : Scope}
    (hr : st.function r = .caller params body home) (a : Args) :
    let x := (callCaller (Evaluator.within host depth) params body home a).result st
    x = .error .endless ∨ x = (callCaller (Evaluator.within host more) params body ⟨place r, []⟩
      a).result (st.rehoused size place) := by
  have hrun := Rehoused.callCaller host hdepth params body
    ⟨_, Store.sameChains_rehoused hhomed hplace hsize hr⟩ a _
    (Store.rehoused_both hhomed hplace hsize)
  exact hrun.imp_right fun hsame => hsame.1.eq

/-- Each of two runs prints the body of a call block as the other does, unless it lacks depth. -/
theorem callers_agree {p : Pairing} {names : Set String} (h : Store.Akin p names st st')
    (hhost : ∀ q : Pairing, p.Le q → host.Blind q) {r r' : FunctionRef} (hr : p.functions r r')
    {params : List String} {body : List Stmt} {home : Scope}
    (hcaller : st.function r = .caller params body home) {a a' : Args} (ha : a.Alike p a')
    (depth depth' : Nat) (scope scope' : Scope) :
    let x := (callValue (Evaluator.within host depth) host (.function r) a scope).result st
    let x' := (callValue (Evaluator.within host depth') host (.function r') a' scope').result st'
    x = .error .endless ∨ x' = .error .endless ∨ x = x' := by
  intro x x'
  obtain ⟨home', hcaller', hnames⟩ : ∃ home', st'.function r' = .caller params body home' ∧
      ∀ n ∈ (Function.caller params body home).names, n ∈ names := by
    have hakin := h.functions r r' hr
    rw [hcaller] at hakin
    generalize hf : st'.function r' = f at hakin
    cases hakin with
    | caller _ _ hnames _ => exact ⟨_, rfl, hnames⟩
  have hx : x = (callCaller (Evaluator.within host depth) params body home a).result st :=
    (callValue_function _ r a scope st).result.trans (by rw [hcaller]; rfl)
  have hx' : x' = (callCaller (Evaluator.within host depth') params body home' a').result st' :=
    (callValue_function _ r' a' scope' st').result.trans (by rw [hcaller']; rfl)
  have hlt : ∀ r s, p.functions r s → s < st'.functions.size := fun r s hrs =>
    (h.functions_lt r s hrs).2
  -- both blocks move to the frame of the number `r'`, where the stores are alike
  have hleft := callCaller_rehoused host (Nat.le_max_left depth depth') h.homed
    (Pairing.partner_injective hlt) (fun _ => Pairing.partner_lt hlt) hcaller a
  have hsize : ∀ r < st'.functions.size, id r < st'.functions.size + st.functions.size :=
    fun _ => Nat.lt_add_right _
  have hright := callCaller_rehoused host (Nat.le_max_right depth depth') h.homed'
    Function.injective_id hsize hcaller' a'
  have hsees : ∀ k ∈ (⟨r', []⟩ : Scope).chain,
      (h.view (st'.functions.size + st.functions.size)).Sees k := by
    intro k hk
    obtain rfl := List.mem_singleton.mp hk
    exact .inr ⟨r, hr⟩
  have hblind := Evaluator.within_blind
    (hhost _ (h.le_view (st'.functions.size + st.functions.size))) (max depth depth')
  have hargs : a.Alike (h.view (st'.functions.size + st.functions.size)).toPairing a' :=
    ha.mono (h.le_view _)
  have hcovers : ∀ n ∈ (Function.caller params body ⟨r', []⟩).names, n ∈ names := hnames
  have hsame := (Matches.callCaller hblind params hcovers hsees hargs _ _
    (h.rehoused_alike rfl)).2
  rw [Pairing.partner_eq hr] at hleft
  rw [hx, hx']
  refine hleft.imp id fun hleft => hright.imp id fun hright => ?_
  rw [hleft, hright]
  rcases hsame.answers with ⟨e, he, he'⟩ | ⟨v, w, hv, hw, hvw⟩
  · exact he.trans he'.symm
  · obtain ⟨t, rfl⟩ := callCaller_string hv
    cases hvw
    exact hv.trans hw.symm

end Eval
end ChatTemplate
