import ChatTemplate.Proofs.Eval.Binding
import ChatTemplate.Proofs.Eval.Frames
import ChatTemplate.Proofs.Eval.View

/-!
# What an assignment binds

`Eval.Receives` says how a value goes to the target of an assignment, and which bindings that makes.
Everything that may fail comes before the first of them, so that an assignment that fails has bound
nothing (`Eval.FailsIntact`), and one that answers has bound exactly the names of its target
(`Eval.assignment_all_or_nothing`).
-/

namespace ChatTemplate

namespace Store

theorem frame_bindEach (st : Store) (own r : FrameRef) (bindings : Slots String Value) :
    (st.bindEach own bindings).frame r =
      if own = r ∧ own < st.frames.size then
        { st.frame r with vars := (st.frame r).vars.putAll bindings }
      else st.frame r := by
  induction bindings generalizing st with
  | nil => exact (ite_self _).symm
  | cons e bindings ih =>
    obtain ⟨name, v⟩ := e
    have hsize : (st.bind own name v).frames.size = st.frames.size := by simp [Store.bind]
    have hstep : st.bindEach own ((name, v) :: bindings) = (st.bind own name v).bindEach own bindings :=
      rfl
    rw [hstep, ih, hsize, Alike.frame_bind]
    split <;> rfl

/-- In the second store, the bindings have been made in the frame `own` of the first one, where the
last one counts of those of one name, and nothing else has changed in a frame of the first store. -/
structure BindsOnly (st : Store) (own : FrameRef) (bindings : Slots String Value) (st' : Store) :
    Prop where
  others : ∀ r < st.frames.size, r ≠ own → st'.frame r = st.frame r
  bound : own < st.frames.size → ∀ name ∈ bindings.names,
    (st'.frame own).vars.lookup name = bindings.reverse.lookup name
  unbound : own < st.frames.size → ∀ name ∉ bindings.names,
    (st'.frame own).vars.lookup name = (st.frame own).vars.lookup name
  tests : own < st.frames.size → (st'.frame own).tests = (st.frame own).tests

theorem KeepsFrames.frame_eq {own : FrameRef → Prop} {st st' : Store} (h : st.KeepsFrames own st')
    {r : FrameRef} (hr : r < st.frames.size) (hown : ¬ own r) : st'.frame r = st.frame r := by
  rw [frame, frame, h.frames r hr hown]

theorem bindsOnly_bindEach {st st₁ : Store} (h : st.KeepsFrames (fun _ => False) st₁)
    (own : FrameRef) (bindings : Slots String Value) :
    st.BindsOnly own bindings (st₁.bindEach own bindings) := by
  have hown (hlt : own < st.frames.size) : (st₁.bindEach own bindings).frame own =
      { st.frame own with vars := (st.frame own).vars.putAll bindings } := by
    rw [frame_bindEach, if_pos ⟨rfl, Nat.lt_of_lt_of_le hlt h.size_le⟩, h.frame_eq hlt id]
  refine ⟨fun r hr hne => ?_, fun hlt name hname => ?_, fun hlt name hname => ?_, fun hlt => ?_⟩
  · rw [frame_bindEach, if_neg fun heq => hne heq.1.symm, h.frame_eq hr id]
  · have hmem : name ∈ Slots.names bindings.reverse := by
      rw [Slots.names, List.map_reverse]
      exact List.mem_reverse.mpr hname
    obtain ⟨v, hv⟩ := Slots.exists_lookup_of_mem_names hmem
    rw [hown hlt, Slots.lookup_putAll, hv, Option.some_or]
  · have hnone : bindings.reverse.lookup name = none := by
      refine Slots.lookup_eq_none.mpr fun hmem => hname ?_
      rw [Slots.names, List.map_reverse] at hmem
      exact List.mem_reverse.mp hmem
    rw [hown hlt, Slots.lookup_putAll, hnone, Option.none_or]
  · rw [hown hlt]

theorem bindsOnly_nil {st st' : Store} (h : st.KeepsFrames (fun _ => False) st') (own : FrameRef) :
    st.BindsOnly own [] st' :=
  ⟨fun _ hr _ => h.frame_eq hr id, fun _ _ => nofun, fun hlt _ _ => by rw [h.frame_eq hlt id],
    fun hlt => by rw [h.frame_eq hlt id]⟩

end Store

namespace Eval
variable {α β : Type} {ev : Evaluator} {scope : Scope} {st st' : Store}

/-! ### Failing without a trace -/

/-- Where the evaluation fails, every frame is as it was. -/
def FailsIntact (m : Eval α) : Prop :=
  ∀ st f, m.result st = .error f → st.KeepsFrames (fun _ => False) (m.after st)

namespace FailsIntact

theorem of_isolated {m : Eval α} (h : Isolated (fun _ => False) m) : FailsIntact m :=
  fun st _ _ => h st

theorem bind {m : Eval α} {f : α → Eval β} (hm : Isolated (fun _ => False) m)
    (hf : ∀ a, FailsIntact (f a)) : FailsIntact (m >>= f) := by
  intro st fault h
  rw [after_bind]
  rw [result_bind] at h
  cases hresult : m.result st with
  | ok a =>
    rw [hresult] at h
    exact (hm st).trans (hf a _ _ h)
  | error f => exact hm st

/-- What follows an evaluation does not matter if it cannot fail. -/
theorem bind_pure {m : Eval α} (hm : FailsIntact m) (g : α → β) :
    FailsIntact (m >>= fun a => pure (g a)) := by
  intro st fault h
  rw [after_bind]
  rw [result_bind] at h
  cases hresult : m.result st with
  | ok a =>
    rw [hresult] at h
    cases h
  | error f => exact hm st f hresult

theorem rethrow {m : Eval α} (g : Fault → Fault) (hm : FailsIntact m) :
    FailsIntact (tryCatch m fun f => throw (g f)) := by
  intro st fault h
  rw [after_tryCatch_throw]
  rw [result_tryCatch_throw] at h
  cases hresult : m.result st with
  | ok a =>
    rw [hresult] at h
    cases h
  | error f => exact hm st f hresult

end FailsIntact

/-! ### Binding -/

/-- How many items there are is known before the first one is bound. -/
theorem bindTo_failsIntact (scope : Scope) (b : Binder) (v : Value) :
    FailsIntact (bindTo scope b v) := by
  intro st f h
  cases b with
  | one name => cases h
  | many names =>
    cases v with
    | array items =>
      unfold bindTo at h ⊢
      dsimp only at h ⊢
      split_ifs at h ⊢ with hfew hmany
      · exact .refl st
      · exact .refl st
      · cases (leads_bindAll_bindEach scope names items st).result.symm.trans h
    | _ => exact .refl st

theorem isolated_binder (target : Target) : Isolated (fun _ => False) (binder target) :=
  fun st => .of_frames_eq (by rw [after_binder])

theorem assign_failsIntact (hev : ev.Isolates) (scope : Scope) (target : Expr) (v : Value) :
    FailsIntact (assign ev scope target v) := by
  unfold assign
  cases htarget : target.target? with
  | some t => exact .bind (isolated_binder t) fun b => bindTo_failsIntact scope b v
  | none =>
    cases target with
    | member e w =>
      refine .bind (hev.expr _ e scope) fun o => ?_
      cases o with
      | object r => exact .of_isolated fun st => .of_frames_eq rfl
      | _ => exact .of_isolated (.fail _)
    | _ => exact .of_isolated (.fail _)

/-! ### Targets -/

/-- A value goes to a target, which leaves the second store, and is bound or has its items bound under
the names of the target. A member receives it without any binding. -/
inductive Receives (ev : Evaluator) (scope : Scope) (v : Value) (st : Store) :
    Expr → Slots String Value → Store → Prop
  | name (w : Word) :
      Receives ev scope v st (.name w) [(w.text, v)] (st.bindEach scope.inner [(w.text, v)])
  | tuple {ws : List Word} {items : List Value} (hv : v = .array items)
      (hlength : ws.length = items.length) :
      Receives ev scope v st (.tuple (ws.map .name)) ((ws.map Word.text).zip items)
        (st.bindEach scope.inner ((ws.map Word.text).zip items))
  | member {e : Expr} {w : Word} {r : ObjectRef} {st₁ : Store}
      (hobject : Leads (ev.expr e scope) st (.object r) st₁) :
      Receives ev scope v st (.member e w) [] (st₁.putSlot r w.text v)

/-- An assignment answers if and only if its target can receive the value, and does just that. -/
theorem leads_assign_iff {target : Expr} {v : Value} :
    Leads (assign ev scope target v) st () st' ↔ ∃ bindings, Receives ev scope v st target bindings st' := by
  constructor
  · intro h
    cases target with
    | name w =>
      cases h.after
      exact ⟨_, .name w⟩
    | tuple items =>
      obtain ⟨b, st₁, hb, h⟩ := h.bind_elim
      obtain ⟨bindings, hunpacks, rfl⟩ := (leads_bindTo_iff hb.result).mp h
      rw [← hb.after, after_binder]
      cases hunpacks with
      | tuple hv hlength => exact ⟨_, .tuple hv hlength⟩
    | member e w =>
      obtain ⟨o, st₁, ho, h⟩ := h.bind_elim
      cases o with
      | object r =>
        cases h.after
        exact ⟨_, .member ho⟩
      | _ => cases h.result
    | _ => cases h.result
  · rintro ⟨bindings, h⟩
    cases h with
    | name w => exact ⟨rfl, rfl⟩
    | @tuple ws items hv hlength =>
      have hbinder : Leads (binder (.tuple (ws.map .name))) st (.many (ws.map Word.text)) st :=
        (leads_expectNames_iff.mpr ⟨rfl, ws, rfl, rfl⟩).bind (.pure _ _)
      exact hbinder.bind ((leads_bindTo_iff hbinder.result).mpr ⟨_, .tuple hv hlength, rfl⟩)
    | member hobject => exact hobject.bind ⟨rfl, rfl⟩

theorem Receives.bindsOnly {target : Expr} {v : Value} {bindings : Slots String Value} {st₀ : Store}
    (h : Receives ev scope v st target bindings st') (hev : ev.Isolates)
    (hst : st₀.KeepsFrames (fun _ => False) st) : st₀.BindsOnly scope.inner bindings st' := by
  cases h with
  | name w => exact Store.bindsOnly_bindEach hst _ _
  | tuple => exact Store.bindsOnly_bindEach hst _ _
  | @member e w r st₁ hobject =>
    have hafter : st.KeepsFrames (fun _ => False) st₁ := hobject.after ▸ hev.expr _ e scope st
    have hput : st₁.KeepsFrames (fun _ => False) (st₁.putSlot r w.text v) := .of_frames_eq rfl
    exact Store.bindsOnly_nil ((hst.trans hafter).trans hput) _

/-! ### The statement -/

theorem stmt_assign_failsIntact (host : Host) (hev : ev.Isolates) (target e : Expr) (scope : Scope) :
    FailsIntact (stmt host ev (.assign target e) scope) := by
  refine .rethrow _ (.bind (hev.expr _ e scope) fun v => ?_)
  exact (assign_failsIntact hev scope target v).bind_pure fun _ => Flow.text ""

theorem leads_stmt_assign_iff {host : Host} {target e : Expr} {flow : Flow} :
    Leads (stmt host ev (.assign target e) scope) st flow st' ↔
      flow = .text "" ∧ ∃ v st₁ bindings, Leads (ev.expr e scope) st v st₁ ∧
        Receives ev scope v st₁ target bindings st' := by
  refine leads_tryCatch_throw.trans ⟨fun h => ?_, ?_⟩
  · obtain ⟨v, st₁, hv, h⟩ := h.bind_elim
    obtain ⟨_, st₂, hassign, h⟩ := h.bind_elim
    cases h.result
    cases h.after
    obtain ⟨bindings, hreceives⟩ := leads_assign_iff.mp hassign
    exact ⟨rfl, v, st₁, bindings, hv, hreceives⟩
  · rintro ⟨rfl, v, st₁, bindings, hv, hreceives⟩
    exact hv.bind ((leads_assign_iff.mpr ⟨bindings, hreceives⟩).bind (.pure _ _))

/-- An assignment is all or nothing. Where it fails, for whatever reason, all bindings are as they were.
It answers if and only if its value does and the target can receive that value; then exactly the names
of the target are bound, each to the item at its place, the last one where a name is repeated, and
there is no binding at all for a member. -/
theorem assignment_all_or_nothing (host : Host) (depth : Nat) (target e : Expr) (scope : Scope)
    (st : Store) :
    let run := (Evaluator.within host depth).stmt (.assign target e) scope
    (∀ f, run.result st = .error f → st.KeepsFrames (fun _ => False) (run.after st)) ∧
    (∀ flow, run.result st = .ok flow → ∃ n v st₁ bindings, depth = n + 1 ∧
      Leads ((Evaluator.within host n).expr e scope) st v st₁ ∧
      Receives (Evaluator.within host n) scope v st₁ target bindings (run.after st) ∧
      st.BindsOnly scope.inner bindings (run.after st)) ∧
    ∀ n v st₁ bindings st', depth = n + 1 →
      Leads ((Evaluator.within host n).expr e scope) st v st₁ →
      Receives (Evaluator.within host n) scope v st₁ target bindings st' →
      Leads run st (.text "") st' := by
  dsimp only
  cases depth with
  | zero =>
    refine ⟨fun f _ => .refl st, fun flow h => ?_, ?_⟩
    · cases h
    · rintro n v st₁ bindings st' ⟨⟩
  | succ n =>
    have hev := Evaluator.within_isolates host n
    refine ⟨fun f h => stmt_assign_failsIntact host hev target e scope st f h, fun flow h => ?_, ?_⟩
    · obtain ⟨-, v, st₁, bindings, hv, hreceives⟩ := leads_stmt_assign_iff.mp (Leads.of_result h)
      have hvalue : st.KeepsFrames (fun _ => False) st₁ := hv.after ▸ hev.expr _ e scope st
      exact ⟨n, v, st₁, bindings, rfl, hv, hreceives, hreceives.bindsOnly hev hvalue⟩
    · rintro _ v st₁ bindings st' ⟨⟩ hv hreceives
      exact leads_stmt_assign_iff.mpr ⟨rfl, v, st₁, bindings, hv, hreceives⟩

/-- Of two items for one name the last one stays. -/
theorem assignment_repeated_name :
    let word (text : String) : Word := ⟨text, default⟩
    let run := (Evaluator.within Host.none 3).stmt
      (.assign (.tuple [.name (word "a"), .name (word "a")])
        (.array [.string (word "x"), .string (word "y")])) ⟨0, []⟩
    let st := Store.initial.pushFrame [("a", .null), ("b", .null)]
    ∃ st', Leads run st (.text "") st' ∧ st'.frame 0 = ⟨[("a", .string "y"), ("b", .null)], []⟩ := by
  intro word run st
  have hall := assignment_all_or_nothing Host.none 3
    (.tuple ([word "a", word "a"].map .name)) (.array [.string (word "x"), .string (word "y")])
    ⟨0, []⟩ st
  have hreceives : Receives (Evaluator.within Host.none 2) ⟨0, []⟩
      (.array [.string "x", .string "y"]) st (.tuple ([word "a", word "a"].map .name))
      [("a", .string "x"), ("a", .string "y")] _ := .tuple rfl rfl
  exact ⟨_, hall.2.2 2 _ st _ _ rfl ⟨rfl, rfl⟩ hreceives, rfl⟩

end Eval
end ChatTemplate
