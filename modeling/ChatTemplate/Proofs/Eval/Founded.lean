import ChatTemplate.Proofs.Eval.Provenance
import Mathlib.Order.Interval.Set.Basic

/-!
# Evaluations that keep a store founded

A store is `Store.Founded` if values hold only objects that are in it, none of them reachable from
its own slots. The number of objects only grows, so that a value made earlier still holds objects
that are in the store later; `Eval.Founds n R m` says what `m` answers in terms of that number. What
only adds to the store keeps it founded (`Eval.Founds.of_returns`), and so does binding a name.
-/

namespace ChatTemplate
variable {α β : Type}

/-- The objects in the value are among the first `n`. -/
def Value.Below (n : ℕ) (v : Value) : Prop := v.Among (Set.Iio n)

def Args.Below (n : ℕ) (a : Args) : Prop := a.Among (Set.Iio n)

theorem Value.Below.mono {n k : ℕ} {v : Value} (h : v.Below n) (hnk : n ≤ k) : v.Below k :=
  Among.mono h (Set.Iio_subset_Iio hnk)

theorem Args.Below.mono {n k : ℕ} {a : Args} (h : a.Below n) (hnk : n ≤ k) : a.Below k where
  positional v hv := Value.Below.mono (h.positional v hv) hnk
  keywords e he := Value.Below.mono (h.keywords e he) hnk

/-- Values hold only objects that are in the store, and none of these is reachable from itself. No
function is the host's. -/
structure Store.Founded (st : Store) : Prop extends
    Store.Within (Set.Iio st.objects.size) st where
  acyclic : st.Acyclic

namespace Store.Founded
variable {st : Store} (h : st.Founded)
include h

theorem pushObject {slots : Slots Text Value} (hslots : ∀ e ∈ slots, e.2.Below st.objects.size) :
    (st.pushObject slots).Founded := by
  have hwithin := h.toWithin.pushObject hslots
  refine ⟨hwithin.mono (Set.Iio_subset_Iio ?_), ?_⟩
  · exact (Grows.pushObject st slots).objects_size_le
  · exact h.acyclic.of_keeps (Grows.pushObject st slots).toKeeps hwithin.slots

theorem pushFrame {vars : Slots String Value} (hvars : ∀ e ∈ vars, e.2.Below st.objects.size) :
    (st.pushFrame vars).Founded :=
  ⟨h.toWithin.pushFrame hvars, h.acyclic⟩

theorem bind (r : FrameRef) (name : String) {v : Value} (hv : v.Below st.objects.size) :
    (st.bind r name v).Founded :=
  ⟨h.toWithin.bind r name hv, h.acyclic⟩

theorem putSlot {r : ObjectRef} (name : Text) {v : Value} (hv : v.Below st.objects.size)
    (hopen : ¬ (r < st.objects.size ∧ st.Reaches v r)) : (st.putSlot r name v).Founded := by
  refine ⟨?_, (acyclic_putSlot_iff h.acyclic).mpr hopen⟩
  rw [objects_size_putSlot]
  exact h.toWithin.putSlot r name hv

theorem lookup (s : Scope) (name : String) : (st.lookup s name).Below st.objects.size := by
  refine holds_getD (fun v hv => ?_) Value.among_undefined
  obtain ⟨r, -, hr⟩ := List.exists_of_findSome?_eq_some hv
  exact h.vars r _ (mem_of_lookup hr)

end Store.Founded

theorem Store.initial_founded : Store.initial.Founded := by
  have hslots (r : ObjectRef) : Store.initial.slots r = [] := slots_of_size_le (Nat.zero_le r)
  refine ⟨⟨fun r => ?_, fun r => ?_, fun r f => ?_⟩, fun r e he => ?_⟩
  · rw [hslots]
    exact nofun
  · exact nofun
  · rcases r with _ | _ | _ | r
    · exact nofun
    · exact nofun
    · exact nofun
    · rw [function_of_size_le (by simp [Store.initial, Store.globals])]
      exact nofun
  · rw [hslots] at he
    cases he

namespace Eval

/-- From a founded store of at least `n` objects the evaluation leaves a founded one of no fewer, and
what it answers satisfies `R` of their number. -/
def Founds (n : ℕ) (R : ℕ → α → Prop) (m : Eval α) : Prop :=
  ∀ st, st.Founded → n ≤ st.objects.size →
    (m.after st).Founded ∧ st.objects.size ≤ (m.after st).objects.size ∧
      ∀ a, m.result st = .ok a → R (m.after st).objects.size a

/-- The store stays founded, whatever is answered. -/
abbrev Sustains (n : ℕ) (m : Eval α) : Prop := Founds n (fun _ _ => True) m

namespace Founds
open Contract (within_lenient)
variable {n k : ℕ} {R S : ℕ → α → Prop} {m : Eval α}

/-! ### Sequencing -/

theorem weaken (h : Founds n R m) (hnk : n ≤ k) : Founds k R m :=
  fun st hst hk => h st hst (hnk.trans hk)

theorem mono (h : Founds n R m) (hRS : ∀ k, n ≤ k → ∀ a, R k a → S k a) : Founds n S m := by
  intro st hst hn
  obtain ⟨hafter, hsize, hresult⟩ := h st hst hn
  exact ⟨hafter, hsize, fun a ha => hRS _ (hn.trans hsize) a (hresult a ha)⟩

theorem pure {a : α} (h : ∀ k, n ≤ k → R k a) : Founds n R (Pure.pure a) := by
  intro st hst hn
  refine ⟨hst, le_rfl, fun b hb => ?_⟩
  cases hb
  exact h _ hn

theorem throw (f : Fault) : Founds n R (throw f) := fun _ hst _ => ⟨hst, le_rfl, nofun⟩

theorem fail (c : Cause) : Founds n R (Eval.fail c) := throw _

theorem fail_bind (c : Cause) {f : β → Eval α} : Founds n R (Eval.fail c >>= f) :=
  fun _ hst _ => ⟨hst, le_rfl, nofun⟩

theorem escape (e : Escape) : Founds n R (Eval.escape e) := throw _

theorem bind {f : α → Eval β} {S : ℕ → β → Prop} (hm : Founds n R m)
    (hf : ∀ k, n ≤ k → ∀ a, R k a → Founds k S (f a)) : Founds n S (m >>= f) := by
  intro st hst hn
  obtain ⟨hafter, hsize, hresult⟩ := hm st hst hn
  rw [after_bind, result_bind]
  cases ha : m.result st with
  | ok a =>
    obtain ⟨hafter', hsize', hresult'⟩ :=
      hf _ (hn.trans hsize) a (hresult a ha) _ hafter le_rfl
    exact ⟨hafter', hsize.trans hsize', hresult'⟩
  | error e => exact ⟨hafter, hsize, nofun⟩

theorem rethrow (pos : Option Pos) (h : Founds n R m) :
    Founds n R (tryCatch m fun f => MonadExcept.throw (f.locate pos)) := by
  intro st hst hn
  obtain ⟨hafter, hsize, hresult⟩ := h st hst hn
  rw [after_tryCatch_throw]
  refine ⟨hafter, hsize, fun a ha => hresult a ?_⟩
  rw [result_tryCatch_throw] at ha
  cases hm : m.result st with
  | ok b =>
    rw [hm] at ha
    exact ha
  | error f =>
    rw [hm] at ha
    cases ha

/-- Answers that are fit for a store stay so as it grows. -/
theorem mapM (hR : ∀ k k' a, k ≤ k' → R k a → R k' a) {f : β → Eval α} {bs : List β}
    (hf : ∀ b ∈ bs, ∀ k, n ≤ k → Founds k R (f b)) :
    Founds n (fun k as => ∀ a ∈ as, R k a) (bs.mapM f) := by
  induction bs generalizing n with
  | nil =>
    rw [List.mapM_nil]
    exact .pure fun _ _ => nofun
  | cons b bs ih =>
    obtain ⟨hb, hbs⟩ := List.forall_mem_cons.mp hf
    rw [List.mapM_cons]
    refine (hb n le_rfl).bind fun k hk a ha => ?_
    refine (ih fun b hb' k' hk' => hbs b hb' k' (hk.trans hk')).bind fun k' hk' as has => ?_
    refine .pure fun k'' hk'' => List.forall_mem_cons.mpr ⟨hR _ _ a (hk'.trans hk'') ha, ?_⟩
    exact fun a ha => hR _ _ a hk'' (has a ha)

theorem each {f : β → Eval α} {bs : List β} (hf : ∀ b ∈ bs, ∀ k, n ≤ k → Sustains k (f b)) :
    Sustains n (bs.mapM f) :=
  (mapM (fun _ _ _ _ h => h) hf).mono fun _ _ _ _ => trivial

/-- What a filtered list holds was in the list. -/
theorem filterM {p : α → Eval Bool} {as : List α}
    (hp : ∀ a ∈ as, ∀ k, n ≤ k → Sustains k (p a)) :
    Founds n (fun _ bs => ∀ b ∈ bs, b ∈ as) (as.filterM p) := by
  have haux (left kept : List α) (hleft : ∀ a ∈ left, a ∈ as) (hkept : ∀ a ∈ kept, a ∈ as)
      (k : ℕ) (hk : n ≤ k) : Founds k (fun _ bs => ∀ b ∈ bs, b ∈ as) (left.filterAuxM p kept) := by
    induction left generalizing kept k with
    | nil => exact .pure fun _ _ => hkept
    | cons a left ih =>
      obtain ⟨ha, hleft⟩ := List.forall_mem_cons.mp hleft
      refine (hp a ha k hk).bind fun k' hk' b _ => ih _ hleft ?_ k' (hk.trans hk')
      cases b with
      | true => exact List.forall_mem_cons.mpr ⟨ha, hkept⟩
      | false => exact hkept
  refine (haux as [] (fun _ h => h) nofun n le_rfl).bind fun k _ bs hbs => .pure fun _ _ b hb => ?_
  exact hbs b (List.mem_reverse.mp hb)

theorem forM {f : α → Eval Unit} {as : List α} (hf : ∀ a ∈ as, ∀ k, n ≤ k → Sustains k (f a)) :
    Sustains n (as.forM f) := by
  induction as generalizing n with
  | nil => exact .pure fun _ _ => trivial
  | cons a as ih =>
    obtain ⟨ha, has⟩ := List.forall_mem_cons.mp hf
    exact (ha n le_rfl).bind fun k hk _ _ => ih fun b hb k' hk' => has b hb k' (hk.trans hk')

theorem get :
    Founds n (fun k st => st.Founded ∧ st.objects.size ≤ k) (MonadState.get : Eval Store) := by
  intro st hst _
  refine ⟨hst, le_rfl, fun st' h => ?_⟩
  cases h
  exact ⟨hst, le_rfl⟩

/-! ### Operations on values -/

/-- What only adds to the store founds what it answers from the values that are there before. -/
theorem of_returns (hadds : Adds m) (hR : ∀ k k' a, k ≤ k' → R k a → R k' a)
    (h : ∀ k, n ≤ k → Returns (.within (Set.Iio k)) (R k) m) : Founds n R m := by
  intro st hst hn
  obtain ⟨hafter, hresult⟩ := h _ hn st hst.toWithin
  have hwithin : (m.after st).Within (Set.Iio st.objects.size) := hafter
  have hgrows := hadds st
  have hsize := hgrows.objects_size_le
  refine ⟨⟨hwithin.mono (Set.Iio_subset_Iio hsize), ?_⟩, hsize, fun a ha => ?_⟩
  · exact hst.acyclic.of_keeps hgrows.toKeeps hwithin.slots
  · rw [ha] at hresult
    exact hR _ _ a hsize hresult

theorem of_gives {m : Eval Value} (hadds : Adds m)
    (h : ∀ k, n ≤ k → Gives (.within (Set.Iio k)) m) : Founds n Value.Below m :=
  of_returns hadds (fun _ _ _ hk hv => hv.mono hk) h

theorem of_meets (hadds : Adds m) (h : ∀ k, Meets (.within (Set.Iio k)) m) : Sustains n m :=
  of_returns hadds (fun _ _ _ _ _ => trivial) fun k _ => h k

theorem truthy (v : Value) : Sustains n (Eval.truthy v) :=
  of_meets (Respects.truthy v) fun _ => Meets.truthy v

theorem textOf (v : Value) : Sustains n (Eval.textOf v) :=
  of_meets (Respects.textOf v) fun _ => (within_lenient Host.none).textOf v

theorem lookup (scope : Scope) (name : String) :
    Founds n Value.Below (do return (← MonadState.get).lookup scope name : Eval Value) :=
  get.bind fun _ _ _ hst => .pure fun _ hk => (hst.1.lookup scope name).mono (hst.2.trans hk)

/-! ### What is new -/

theorem newObject {slots : Slots Text Value} (h : ∀ e ∈ slots, e.2.Below n) :
    Founds n Value.Below (Eval.newObject slots) := by
  intro st hst hn
  have hsize : (st.pushObject slots).objects.size = st.objects.size + 1 := Array.size_push _
  refine ⟨hst.pushObject fun e he => (h e he).mono hn, ?_, fun v hv => ?_⟩
  · exact (Store.Grows.pushObject st slots).objects_size_le
  · cases hv
    refine Value.among_object.mpr ?_
    rw [Eval.newObject, after_modifyGet, hsize]
    exact Nat.lt_succ_self _

theorem newFunction {f : Function} (hf : ∀ g, f ≠ .host g) :
    Founds n Value.Below (Eval.newFunction f) :=
  of_gives (Adds.newFunction f) fun _ _ =>
    .modifyGet fun _ hst => ⟨Value.among_function _, hst.pushFunction hf⟩

theorem innerScope (scope : Scope) : Sustains n (Eval.innerScope scope) :=
  fun _ hst _ => ⟨hst.pushFrame nofun, le_rfl, fun _ _ => trivial⟩

/-! ### Binding names -/

theorem bindName (scope : Scope) (name : String) {v : Value} (hv : v.Below n) :
    Sustains n (Eval.bind scope name v) :=
  fun _ hst hn => ⟨hst.bind scope.inner name (hv.mono hn), le_rfl, fun _ _ => trivial⟩

theorem bindAll (scope : Scope) (names : List String) {items : List Value}
    (hitems : ∀ v ∈ items, v.Below n) : Sustains n (Eval.bindAll scope names items) :=
  forM fun (name, v) hmem _ hk =>
    bindName scope name ((hitems v (List.of_mem_zip hmem).2).mono hk)

theorem bindTo (scope : Scope) (b : Binder) {v : Value} (hv : v.Below n) :
    Sustains n (Eval.bindTo scope b v) := by
  cases b with
  | one name => exact bindName scope name hv
  | many names =>
    cases v with
    | array items =>
      dsimp only [Eval.bindTo]
      split
      · exact fail _
      split
      · exact fail _
      · exact bindAll scope names (Value.among_array.mp hv)
    | _ => exact fail _

end Founds
end Eval
end ChatTemplate
