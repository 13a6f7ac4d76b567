import ChatTemplate.Eval.Stmt
import ChatTemplate.Proofs.Eval.Binding

/-!
# Loops

A loop selects its items before the first round, and then runs round after round up to the first
`break` (`Eval.loop_statement`). The first pass tests the candidates in their order, each with the target
bound in a scope of its own (`Eval.Selects`). The second is a run of evaluations one after the other
(`Eval.Steps`): there is no step but those of the selected items in theirs.
-/

namespace ChatTemplate

/-- Does a flow stop the loop around it? -/
def Flow.breaks : Flow → Bool
  | .signal .break _ => true
  | _ => false

/-- The text that a flow leaves, with or without a signal. -/
def Flow.shown : Flow → Text
  | .text s | .signal _ s => s

namespace Eval
variable {α β : Type}

/-- From the first store, evaluations of the items of a list, the first one of index `i`, answer the
second list one after the other and leave the second store. -/
inductive Steps (m : Nat → α → Eval β) : Nat → Store → List α → List β → Store → Prop
  | nil (i : Nat) (st : Store) : Steps m i st [] [] st
  | cons {i : Nat} {a : α} {b : β} {as : List α} {bs : List β} {st st₁ st' : Store}
      (head : Leads (m i a) st b st₁) (tail : Steps m (i + 1) st₁ as bs st') :
      Steps m i st (a :: as) (b :: bs) st'

/-! ### The first pass -/

/-- The iterable of a loop is an expression with a test, or one without. -/
inductive Header : Expr → Expr → Option Expr → Prop
  | tested (source test : Expr) : Header (.select source test) source (some test)
  | plain {iterable : Expr} (h : ∀ source test, iterable ≠ .select source test) :
      Header iterable iterable none

theorem header_iff {iterable source : Expr} {test : Option Expr} :
    Header iterable source test ↔ loopHeader iterable = (source, test) := by
  constructor
  · rintro (_ | h)
    · rfl
    · cases iterable with
      | select source test => exact absurd rfl (h source test)
      | _ => rfl
  · intro h
    cases iterable with
    | select source test =>
      cases h
      exact .tested source test
    | _ =>
      cases h
      exact .plain nofun

section
variable (ev : Evaluator) (scope : Scope) (target : Target)

/-- Whether a candidate passes. A test is evaluated in a new scope, in which the candidate is bound to the
target and nothing else is; it passes if the answer is truthy. -/
inductive Tests : Option Expr → Store → Value → Bool → Store → Prop
  | untested (st : Store) (v : Value) : Tests none st v true st
  | tested {e : Expr} {st st' : Store} {v w : Value} {bindings : Slots String Value}
      (bound : Unpacks v target bindings)
      (answer : Leads (ev.expr e ⟨st.frames.size, scope.chain⟩)
        ((st.pushFrame []).bindEach st.frames.size bindings) w st') :
      Tests (some e) st v (st'.truthy w) st'

/-- From the first store, the loop tests the candidates one after the other, selects `items` of them
and leaves the second store. -/
inductive Selects (test : Option Expr) : Store → List Value → List Value → Store → Prop
  | nil (st : Store) : Selects test st [] [] st
  | keep {st st₁ st' : Store} {v : Value} {vs items : List Value}
      (passes : Tests ev scope target test st v true st₁)
      (rest : Selects test st₁ vs items st') : Selects test st (v :: vs) (v :: items) st'
  | drop {st st₁ st' : Store} {v : Value} {vs items : List Value}
      (fails : Tests ev scope target test st v false st₁)
      (rest : Selects test st₁ vs items st') : Selects test st (v :: vs) items st'

end

section
variable {ev : Evaluator} {scope : Scope} {target : Target} {b : Binder} {test : Option Expr}
  {st₀ st st' : Store} (hb : (binder target).result st₀ = .ok b)
include hb

theorem leads_passes_iff {v : Value} {passed : Bool} :
    Leads (passes ev scope b test v) st passed st' ↔ Tests ev scope target test st v passed st' := by
  cases test with
  | none =>
    constructor
    · intro h
      cases h.result
      cases h.after
      exact .untested st v
    · rintro ⟨⟩
      exact .pure true _
  | some e =>
    constructor
    · intro h
      obtain ⟨inner, st₁, hinner, h⟩ := h.bind_elim
      cases hinner.result
      cases hinner.after
      obtain ⟨_, st₂, hbound, h⟩ := h.bind_elim
      obtain ⟨bindings, hunpacks, rfl⟩ := (leads_bindTo_iff hb).mp hbound
      obtain ⟨w, st₃, hanswer, h⟩ := h.bind_elim
      cases h.result
      cases h.after
      exact .tested hunpacks hanswer
    · intro h
      cases h with
      | tested hunpacks hanswer =>
        have hinner : Leads (innerScope scope) st ⟨st.frames.size, scope.chain⟩ (st.pushFrame []) :=
          ⟨rfl, rfl⟩
        refine hinner.bind (((leads_bindTo_iff hb).mpr ⟨_, hunpacks, rfl⟩).bind (hanswer.bind ?_))
        exact ⟨rfl, rfl⟩

theorem leads_filterAuxM_iff {as acc items : List Value} :
    Leads (as.filterAuxM (passes ev scope b test) acc) st items st' ↔
      ∃ kept, Selects ev scope target test st as kept st' ∧ items = kept.reverse ++ acc := by
  induction as generalizing st acc with
  | nil =>
    constructor
    · intro h
      cases h.result
      cases h.after
      exact ⟨[], .nil _, rfl⟩
    · rintro ⟨_, ⟨⟩, rfl⟩
      exact .pure _ _
  | cons v vs ih =>
    constructor
    · intro h
      obtain ⟨passed, st₁, hv, h⟩ := h.bind_elim
      obtain ⟨kept, hkept, rfl⟩ := ih.mp h
      cases passed with
      | true => exact ⟨v :: kept, .keep ((leads_passes_iff hb).mp hv) hkept, by simp⟩
      | false => exact ⟨kept, .drop ((leads_passes_iff hb).mp hv) hkept, rfl⟩
    · rintro ⟨_, hselects, rfl⟩
      cases hselects with
      | keep hv hrest =>
        exact ((leads_passes_iff hb).mpr hv).bind (ih.mpr ⟨_, hrest, by simp⟩)
      | drop hv hrest => exact ((leads_passes_iff hb).mpr hv).bind (ih.mpr ⟨_, hrest, rfl⟩)

/-- The candidates that are filtered are those that are selected. -/
theorem leads_filterM_iff {candidates items : List Value} :
    Leads (candidates.filterM (passes ev scope b test)) st items st' ↔
      Selects ev scope target test st candidates items st' := by
  constructor
  · intro h
    obtain ⟨ys, st₁, hys, h⟩ := h.bind_elim
    obtain ⟨kept, hkept, rfl⟩ := (leads_filterAuxM_iff hb).mp hys
    cases h.result
    cases h.after
    simpa using hkept
  · intro h
    refine ((leads_filterAuxM_iff hb).mpr ⟨items, h, rfl⟩).bind ?_
    simpa using Leads.pure items st'

end

/-! ### The rounds -/

/-- The member of an object by a plain name. -/
def member (slots : Slots Text Value) (name : String) : Option Value :=
  slots.lookup (.ofString name)

/-- What a loop over `items` says of its round of index `i`. The items beside it are those beside it
in the selection, and there is none at the ends. -/
structure Describes (items : List Value) (i : Nat) (slots : Slots Text Value) : Prop where
  index : member slots "index" = some (.int (i + 1))
  index0 : member slots "index0" = some (.int i)
  revindex : member slots "revindex" = some (.int (items.length - i))
  revindex0 : member slots "revindex0" = some (.int (items.length - 1 - i))
  first : member slots "first" = some (.bool (i = 0))
  last : member slots "last" = some (.bool (i = items.length - 1))
  length : member slots "length" = some (.int items.length)
  previtem : member slots "previtem" = if i = 0 then some .undefined else items[i - 1]?
  nextitem : member slots "nextitem" =
    if i = items.length - 1 then some .undefined else items[i + 1]?

theorem loopSlots_describes {items : List Value} {i : Nat} (hi : i < items.length) :
    Describes items i (loopSlots items.toArray i) where
  index := rfl
  index0 := rfl
  revindex := rfl
  revindex0 := congrArg (fun n => some (Value.int n)) (by rw [List.size_toArray]; omega)
  first := rfl
  last := by
    refine congrArg (fun b => some (Value.bool b)) ?_
    rw [List.size_toArray, Bool.beq_eq_decide_eq, decide_eq_decide]
    omega
  length := rfl
  previtem := by
    show some (if i == 0 then Value.undefined else (items.toArray[i - 1]?).getD .undefined) = _
    by_cases h : i = 0
    · rw [if_pos h, if_pos (by simpa using h)]
    · have hlt : i - 1 < items.length := by omega
      rw [if_neg h, if_neg (by simpa using h), List.getElem?_toArray, List.getElem?_eq_getElem hlt]
      rfl
  nextitem := by
    show some ((items.toArray[i + 1]?).getD .undefined) = _
    rw [List.getElem?_toArray]
    by_cases h : i = items.length - 1
    · rw [if_pos h, List.getElem?_eq_none (by omega)]
      rfl
    · have hlt : i + 1 < items.length := by omega
      rw [if_neg h, List.getElem?_eq_getElem hlt]
      rfl

section
variable (ev : Evaluator) (scope : Scope) (b : Binder)

/-- One round of a loop over `items`: `loop` is bound, then the target, and the body runs. -/
def round (body : List Stmt) (items : List Value) (i : Nat) (v : Value) : Eval Flow := do
  bind scope "loop" (← newObject (loopSlots items.toArray i))
  bindTo scope b v
  block ev scope "" body

/-- The rounds that run leave these flows: they are all rounds, or those up to the first that
breaks. -/
structure Halts (left : List Value) (flows : List Flow) : Prop where
  quiet : ∀ flow ∈ flows.dropLast, flow.breaks = false
  last : left ≠ [] → ∃ flow ∈ flows.getLast?, flow.breaks

/-- The texts of flows, one after the other. -/
def shown (before : Text) (flows : List Flow) : Text :=
  flows.foldl (fun t flow => t ++ flow.shown) before

end

variable {host : Host} {ev : Evaluator} {scope : Scope} {b : Binder} {body default : List Stmt}
  {items : List Value} {st st' st₁ st₂ : Store}

theorem rounds_cons (i : Nat) (before : Text) (v : Value) (vs : List Value) :
    rounds ev scope b body items.toArray i before (v :: vs) = (do
      let flow ← round ev scope b body items i v
      if flow.breaks then return .text (before ++ flow.shown)
      else rounds ev scope b body items.toArray (i + 1) (before ++ flow.shown) vs) := by
  rw [rounds, round]
  simp only [bind_assoc]
  refine bind_congr fun o => bind_congr fun _ => bind_congr fun _ => bind_congr fun flow => ?_
  cases flow with
  | text t => rfl
  | signal signal t => cases signal <;> rfl

theorem Halts.tail {left : List Value} {flow : Flow} {flows : List Flow}
    (h : Halts left (flow :: flows)) (hflow : flow.breaks = false) : Halts left flows := by
  cases flows with
  | nil =>
    refine ⟨nofun, fun hleft => ?_⟩
    obtain ⟨_, ⟨⟩, hbreaks⟩ := h.last hleft
    exact absurd hbreaks (Bool.eq_false_iff.mp hflow)
  | cons flow' flows =>
    refine ⟨fun f hf => h.quiet f (List.mem_cons_of_mem _ hf), fun hleft => ?_⟩
    simpa using h.last hleft

theorem Halts.cons {left : List Value} {flow : Flow} {flows : List Flow} (h : Halts left flows)
    (hflow : flow.breaks = false) (hleft : left ≠ [] → flows ≠ []) : Halts left (flow :: flows) := by
  cases flows with
  | nil => exact ⟨nofun, fun hne => absurd rfl (hleft hne)⟩
  | cons flow' flows =>
    refine ⟨fun f hf => ?_, fun hne => by simpa using h.last hne⟩
    rcases List.mem_cons.mp hf with rfl | hf
    · exact hflow
    · exact h.quiet f hf

theorem rounds_of_steps {i : Nat} {ran left : List Value} {flows : List Flow}
    (h : Steps (round ev scope b body items) i st ran flows st') (hhalts : Halts left flows)
    (before : Text) :
    Leads (rounds ev scope b body items.toArray i before (ran ++ left)) st
      (.text (shown before flows)) st' := by
  induction h generalizing before with
  | nil i st =>
    cases left with
    | nil => exact .pure _ st
    | cons v vs =>
      obtain ⟨_, ⟨⟩, -⟩ := hhalts.last (List.cons_ne_nil v vs)
  | @cons i v flow ran flows st st₁ st' head tail ih =>
    rw [List.cons_append, rounds_cons]
    refine head.bind ?_
    cases hflow : flow.breaks with
    | false => exact ih (hhalts.tail hflow) _
    | true =>
      cases tail with
      | nil => exact .pure _ _
      | cons head' tail' =>
        have := hhalts.quiet flow List.mem_cons_self
        rw [hflow] at this
        cases this

theorem steps_of_rounds {i : Nat} {before : Text} {vs : List Value} {flow : Flow}
    (h : Leads (rounds ev scope b body items.toArray i before vs) st flow st') :
    ∃ ran left flows, vs = ran ++ left ∧ Steps (round ev scope b body items) i st ran flows st' ∧
      Halts left flows ∧ flow = .text (shown before flows) := by
  induction vs generalizing i before st with
  | nil =>
    cases h.result
    cases h.after
    exact ⟨[], [], [], rfl, .nil i st, ⟨nofun, fun h => absurd rfl h⟩, rfl⟩
  | cons v vs ih =>
    rw [rounds_cons] at h
    obtain ⟨flow', st₁, head, hrest⟩ := h.bind_elim
    cases hflow : flow'.breaks with
    | true =>
      rw [hflow, if_pos rfl] at hrest
      cases hrest.result
      cases hrest.after
      exact ⟨[v], vs, [flow'], rfl, .cons head (.nil _ _), ⟨nofun, fun _ => ⟨flow', rfl, hflow⟩⟩, rfl⟩
    | false =>
      rw [hflow, if_neg Bool.false_ne_true] at hrest
      obtain ⟨ran, left, flows, rfl, tail, hhalts, rfl⟩ := ih hrest
      refine ⟨v :: ran, left, flow' :: flows, rfl, .cons head tail, hhalts.cons hflow ?_, rfl⟩
      rintro hleft rfl
      obtain ⟨_, ⟨⟩, -⟩ := hhalts.last hleft

/-- Where a round fails, no round before it broke and none after it runs. -/
theorem fails_of_rounds {i : Nat} {before : Text} {vs : List Value} {f : Fault}
    (h : (rounds ev scope b body items.toArray i before vs).result st = .error f) :
    ∃ ran v left flows st₁, vs = ran ++ v :: left ∧
      Steps (round ev scope b body items) i st ran flows st₁ ∧
      (∀ flow ∈ flows, flow.breaks = false) ∧
      (round ev scope b body items (i + ran.length) v).result st₁ = .error f := by
  induction vs generalizing i before st with
  | nil => cases h
  | cons v vs ih =>
    rw [rounds_cons, result_bind] at h
    cases hround : (round ev scope b body items i v).result st with
    | error f' =>
      rw [hround] at h
      cases h
      exact ⟨[], v, vs, [], st, rfl, .nil i st, nofun, hround⟩
    | ok flow =>
      rw [hround] at h
      dsimp only at h
      split at h
      · cases h
      rename_i hflow
      obtain ⟨ran, v', left, flows, st₁, rfl, tail, hquiet, hfail⟩ := ih h
      refine ⟨v :: ran, v', left, flow :: flows, st₁, rfl, .cons (.of_result hround) tail, ?_, ?_⟩
      · exact List.forall_mem_cons.mpr ⟨Bool.eq_false_iff.mpr hflow, hquiet⟩
      · rw [List.length_cons, Nat.add_comm ran.length, ← Nat.add_assoc]
        exact hfail

/-! ### The statement -/

variable {target : Target} {iterable source : Expr} {test : Option Expr} {v : Value}
  {candidates : List Value}

theorem leads_innerScope (scope : Scope) (st : Store) :
    Leads (innerScope scope) st ⟨st.frames.size, scope.chain⟩ (st.pushFrame []) :=
  ⟨rfl, rfl⟩

theorem leads_loopItems (h : v = .array candidates ∨
    ∃ r, v = .object r ∧ candidates = (st.slots r).names.map .string) :
    Leads (loopItems v) st candidates st := by
  rcases h with rfl | ⟨r, rfl, rfl⟩
  · exact .pure _ st
  · exact ⟨rfl, rfl⟩

/-- What a loop does once its iterable has answered. -/
def loopOver (ev : Evaluator) (scope : Scope) (target : Target) (test : Option Expr)
    (body default : List Stmt) (candidates : List Value) : Eval Flow := do
  let b ← binder target
  let items ← candidates.filterM (passes ev scope b test)
  if items.isEmpty then block ev scope "" default
  else rounds ev scope b body items.toArray 0 "" items

theorem loop_eq_loopOver (target : Target) (body default : List Stmt) (hheader : loopHeader iterable = (source, test))
    (hsource : Leads (ev.expr source ⟨st.frames.size, scope.chain⟩) (st.pushFrame []) v st₁)
    (hitems : Leads (loopItems v) st₁ candidates st₁) :
    let rest := loopOver ev ⟨st.frames.size, scope.chain⟩ target test body default candidates
    (loop ev scope target iterable body default).result st = rest.result st₁ ∧
      (loop ev scope target iterable body default).after st = rest.after st₁ := by
  have hinner := leads_innerScope scope st
  rw [loop, result_bind_ok hinner.result, after_bind_ok hinner.result, hinner.after, hheader]
  dsimp only
  rw [result_bind_ok hsource.result, after_bind_ok hsource.result, hsource.after,
    result_bind_ok hitems.result, after_bind_ok hitems.result, hitems.after]
  exact ⟨rfl, rfl⟩

theorem loopOver_of_selects (body default : List Stmt) (hb : (binder target).result st₁ = .ok b)
    (hselects : Selects ev scope target test st₁ candidates items st₂) :
    let rest := if items.isEmpty then block ev scope "" default
      else rounds ev scope b body items.toArray 0 "" items
    (loopOver ev scope target test body default candidates).result st₁ = rest.result st₂ ∧
      (loopOver ev scope target test body default candidates).after st₁ = rest.after st₂ := by
  have hfilter := (leads_filterM_iff hb).mpr hselects
  rw [loopOver, result_bind_ok hb, after_bind_ok hb, after_binder, result_bind_ok hfilter.result,
    after_bind_ok hfilter.result, hfilter.after]
  exact ⟨rfl, rfl⟩

/-- A loop whose candidates are not all tested does not answer. -/
theorem loopOver_fails (body default : List Stmt) (h : ∀ b items st₂, (binder target).result st₁ = .ok b →
    ¬ Selects ev scope target test st₁ candidates items st₂) :
    ∃ f, (loopOver ev scope target test body default candidates).result st₁ = .error f := by
  cases hover : (loopOver ev scope target test body default candidates).result st₁ with
  | error f => exact ⟨f, rfl⟩
  | ok flow =>
    obtain ⟨b, hb, hrest⟩ := result_bind_eq_ok hover
    rw [after_binder] at hrest
    obtain ⟨items, hfilter, -⟩ := result_bind_eq_ok hrest
    exact absurd ((leads_filterM_iff hb).mp (.of_result hfilter)) (h b _ _ hb)

/-- A loop over an array or over the names of an object. Its items are selected first, each candidate
tested in a scope of its own. Without an item the loop is its `else` block. Otherwise it answers where
its rounds do, all of them or those up to the first that breaks, with their texts one after the
other; each round finds in `loop` where it stands. It fails where a round fails. -/
theorem loop_statement (host : Host) (target : Target) (body default : List Stmt)
    (hheader : Header iterable source test)
    (hsource : Leads (ev.expr source ⟨st.frames.size, scope.chain⟩) (st.pushFrame []) v st₁)
    (hitems : v = .array candidates ∨
      ∃ r, v = .object r ∧ candidates = (st₁.slots r).names.map .string) :
    let inner : Scope := ⟨st.frames.size, scope.chain⟩
    let s : Stmt := .loop target iterable body default
    let run := Eval.stmt host ev s scope
    (∀ b items st₂, (binder target).result st₁ = .ok b →
      Selects ev inner target test st₁ candidates items st₂ →
      (items = [] →
        run.result st = ((block ev inner "" default).result st₂).mapError (·.locate s.pos?) ∧
        run.after st = (block ev inner "" default).after st₂) ∧
      (items ≠ [] →
        (∀ i < items.length, Describes items i (loopSlots items.toArray i)) ∧
        (∀ flow st', Leads run st flow st' ↔ ∃ ran left flows, items = ran ++ left ∧
          Steps (round ev inner b body items) 0 st₂ ran flows st' ∧ Halts left flows ∧
          flow = .text (shown "" flows)) ∧
        ∀ f, run.result st = .error f → ∃ ran v left flows st' f', items = ran ++ v :: left ∧
          Steps (round ev inner b body items) 0 st₂ ran flows st' ∧
          (∀ flow ∈ flows, flow.breaks = false) ∧
          (round ev inner b body items ran.length v).result st' = .error f' ∧
          f = f'.locate s.pos?)) ∧
    ((∀ b items st₂, (binder target).result st₁ = .ok b →
      ¬ Selects ev inner target test st₁ candidates items st₂) → ∃ f, run.result st = .error f) := by
  intro inner s run
  obtain ⟨hresult, hafter⟩ := loop_eq_loopOver target body default (header_iff.mp hheader) hsource
    (leads_loopItems hitems)
  have hrun : run.result st =
      ((loopOver ev inner target test body default candidates).result st₁).mapError
        (·.locate s.pos?) := by
    rw [← hresult]
    exact result_tryCatch_throw _ _ _
  have hrunAfter : run.after st =
      (loopOver ev inner target test body default candidates).after st₁ := by
    rw [← hafter]
    exact after_tryCatch_throw _ _ _
  refine ⟨fun b items st₂ hb hselects => ?_, fun hnone => ?_⟩
  · obtain ⟨hover, hoverAfter⟩ := loopOver_of_selects body default hb hselects
    refine ⟨?_, fun hne => ⟨fun i hi => loopSlots_describes hi, fun flow st' => ?_, fun f hf => ?_⟩⟩
    · rintro rfl
      rw [hrun, hrunAfter, hover, hoverAfter]
      exact ⟨rfl, rfl⟩
    · rw [if_neg (by simpa using hne)] at hover hoverAfter
      have hleads : Leads run st flow st' ↔
          Leads (rounds ev inner b body items.toArray 0 "" items) st₂ flow st' := by
        refine leads_tryCatch_throw.trans ⟨fun h => ⟨?_, ?_⟩, fun h => ⟨?_, ?_⟩⟩
        · exact hover.symm.trans (hresult.symm.trans h.result)
        · exact hoverAfter.symm.trans (hafter.symm.trans h.after)
        · exact hresult.trans (hover.trans h.result)
        · exact hafter.trans (hoverAfter.trans h.after)
      refine hleads.trans ⟨fun h => steps_of_rounds h, ?_⟩
      rintro ⟨ran, left, flows, hsplit, hsteps, hhalts, rfl⟩
      have hrounds := rounds_of_steps hsteps hhalts ""
      rwa [← hsplit] at hrounds
    · rw [if_neg (by simpa using hne)] at hover
      rw [hrun, hover] at hf
      cases hrounds : (rounds ev inner b body items.toArray 0 "" items).result st₂ with
      | ok flow =>
        rw [hrounds] at hf
        cases hf
      | error f' =>
        rw [hrounds] at hf
        cases hf
        obtain ⟨ran, v, left, flows, st', hsplit, hsteps, hquiet, hfail⟩ := fails_of_rounds hrounds
        rw [Nat.zero_add] at hfail
        exact ⟨ran, v, left, flows, st', f', hsplit, hsteps, hquiet, hfail, rfl⟩
  · obtain ⟨f, hf⟩ := loopOver_fails body default hnone
    exact ⟨f.locate s.pos?, by rw [hrun, hf]; rfl⟩

/-- A loop that passes over its first candidate and breaks in its first round. -/
theorem loop_statement_select :
    let word (text : String) : Word := ⟨text, ⟨1, 1⟩⟩
    let ev := Evaluator.within Host.none 2
    let source := Expr.array [.string (word ""), .string (word "b")]
    let test := Expr.name (word "x")
    let body : List Stmt := [.output (.name (word "x")), .control .break (word "break")]
    let st := Store.initial.pushFrame []
    ∃ st₂ st', Selects ev ⟨1, [0]⟩ (.name (word "x")) (some test) (st.pushFrame [])
        [.string "", .string "b"] [.string "b"] st₂ ∧
      Leads (Eval.stmt Host.none ev (.loop (.name (word "x")) (.select source test) body []) ⟨0, []⟩) st
        (.text "b") st' := by
  intro word ev source test body st
  have hsource : Leads (ev.expr source ⟨1, [0]⟩) (st.pushFrame []) (.array [.string "", .string "b"])
      (st.pushFrame []) := ⟨rfl, rfl⟩
  let tested (frames : Array Frame) : Store :=
    { Store.initial with frames := #[⟨[], []⟩, ⟨[], []⟩] ++ frames }
  let st₁ := tested #[⟨[("x", .string "")], []⟩]
  let st₂ := tested #[⟨[("x", .string "")], []⟩, ⟨[("x", .string "b")], []⟩]
  have hdrop : Tests ev ⟨1, [0]⟩ (.name (word "x")) (some test) (st.pushFrame []) (.string "")
      false st₁ := .tested (w := .string "") (.name (word "x")) ⟨rfl, rfl⟩
  have hkeep : Tests ev ⟨1, [0]⟩ (.name (word "x")) (some test) st₁ (.string "b") true st₂ :=
    .tested (w := .string "b") (.name (word "x")) ⟨rfl, rfl⟩
  have hselects : Selects ev ⟨1, [0]⟩ (.name (word "x")) (some test) (st.pushFrame [])
      [.string "", .string "b"] [.string "b"] st₂ := .drop hdrop (.keep hkeep (.nil _))
  have hround : Leads (round ev ⟨1, [0]⟩ (.one "x") body [.string "b"] 0 (.string "b")) st₂
      (.signal .break "b") _ := .of_result (by rfl)
  have hloop := (@loop_statement ev ⟨0, []⟩ st _ _ _ _ _ _ Host.none (.name (word "x")) body []
    (.tested source test) hsource (.inl rfl)).1 (.one "x") _ _ rfl hselects
  exact ⟨_, _, hselects, ((hloop.2 nofun).2.1 _ _).mpr ⟨[.string "b"], [], [.signal .break "b"], rfl,
    .cons hround (.nil _ _), ⟨nofun, fun _ => ⟨_, rfl, rfl⟩⟩, rfl⟩⟩

end Eval
end ChatTemplate
