import ChatTemplate.Proofs.Eval.Growth
import ChatTemplate.Proofs.Template.Allocation
import ChatTemplate.Template

/-!
# The store after variables are declared

Variables are converted one after the other, so that what each adds to the store comes after what
those before it add (`offset`). `Declared r s vars t` says what is known of the store `t` in which
`vars` are declared in the frame `r` of the store `s`. Two orders of declaring the same values differ
in where they are kept: `Moved` pairs one place with the other.
-/

namespace ChatTemplate

abbrev Variables := List (String × HostValue)

namespace Variables
variable (size : HostValue → Nat)

/-- The room that variables take before the one of a name. -/
def offset : Variables → String → Nat
  | [], _ => 0
  | (k, h) :: rest, n => if k = n then 0 else size h + offset rest n

/-- The room that variables take altogether. -/
def total : Variables → Nat
  | [] => 0
  | (_, h) :: rest => size h + total rest

variable {size} {vars vars' : Variables} {n n' : String} {h h' : HostValue}

theorem lookup_cons_self (n : String) (h : HostValue) (vars : Variables) :
    List.lookup n ((n, h) :: vars) = some h := by
  simp

theorem lookup_cons_of_ne {k : String} (hne : k ≠ n) (h : HostValue) (vars : Variables) :
    List.lookup n ((k, h) :: vars) = vars.lookup n := by
  simp [List.lookup_cons, beq_false_of_ne hne.symm]

variable (size) in
theorem offset_add_le (hn : vars.lookup n = some h) :
    offset size vars n + size h ≤ total size vars := by
  induction vars with
  | nil => cases hn
  | cons e rest ih =>
    obtain ⟨k, g⟩ := e
    by_cases heq : k = n
    · subst heq
      rw [lookup_cons_self] at hn
      obtain rfl := Option.some.inj hn
      simp only [offset, total, if_pos]
      omega
    · rw [lookup_cons_of_ne heq] at hn
      have := ih hn
      simp only [offset, total, if_neg heq]
      omega

variable (size) in
theorem offset_disjoint (hn : vars.lookup n = some h) (hn' : vars.lookup n' = some h')
    (hne : n ≠ n') :
    offset size vars n + size h ≤ offset size vars n' ∨
      offset size vars n' + size h' ≤ offset size vars n := by
  induction vars with
  | nil => cases hn
  | cons e rest ih =>
    obtain ⟨k, g⟩ := e
    by_cases heq : k = n
    · subst heq
      rw [lookup_cons_self] at hn
      obtain rfl := Option.some.inj hn
      simp only [offset, if_pos, if_neg hne]
      omega
    · rw [lookup_cons_of_ne heq] at hn
      by_cases heq' : k = n'
      · subst heq'
        rw [lookup_cons_self] at hn'
        obtain rfl := Option.some.inj hn'
        simp only [offset, if_pos, if_neg heq]
        omega
      · rw [lookup_cons_of_ne heq'] at hn'
        have := ih hn hn'
        simp only [offset, if_neg heq, if_neg heq']
        omega

/-! ### Places that move -/

variable (size) in
/-- Where something is kept if `vars` or if `vars'` are declared: what is kept from before stays, each
variable that matters moves as a whole, and what comes after them all moves as a whole. -/
def Moved (kept : Set Nat) (start : Nat) (names : Set String) (vars vars' : Variables)
    (r s : Nat) : Prop :=
  (r = s ∧ r ∈ kept) ∨
    (∃ n ∈ names, ∃ h, vars.lookup n = some h ∧ vars'.lookup n = some h ∧ ∃ i < size h,
      r = start + offset size vars n + i ∧ s = start + offset size vars' n + i) ∨
    ∃ i, r = start + total size vars + i ∧ s = start + total size vars' + i

section Moved
variable {kept : Set Nat} {start : Nat} {names : Set String} {r s s' : Nat}

theorem Moved.symm (h : Moved size kept start names vars vars' r s) :
    Moved size kept start names vars' vars s r := by
  rcases h with ⟨rfl, hr⟩ | ⟨n, hn, h, hv, hv', i, hi, hr, hs⟩ | ⟨i, hr, hs⟩
  · exact .inl ⟨rfl, hr⟩
  · exact .inr (.inl ⟨n, hn, h, hv', hv, i, hi, hs, hr⟩)
  · exact .inr (.inr ⟨i, hs, hr⟩)

theorem Moved.unique (hkept : ∀ r ∈ kept, r < start)
    (hs : Moved size kept start names vars vars' r s)
    (hs' : Moved size kept start names vars vars' r s') : s = s' := by
  rcases hs with ⟨rfl, hr⟩ | ⟨n, _, h, hv, hv', i, hi, hr, hs⟩ | ⟨i, hr, hs⟩
  · have := hkept r hr
    rcases hs' with ⟨rfl, _⟩ | ⟨m, _, g, _, _, j, _, hr', _⟩ | ⟨j, hr', _⟩ <;> omega
  · have hle := offset_add_le size hv
    rcases hs' with ⟨rfl, hkeep⟩ | ⟨m, _, g, hw, hw', j, hj, hr', hs'⟩ | ⟨j, hr', _⟩
    · have := hkept r hkeep
      omega
    · by_cases hne : n = m
      · subst hne
        omega
      · have := offset_disjoint size hv hw hne
        omega
    · omega
  · rcases hs' with ⟨rfl, hkeep⟩ | ⟨m, _, g, hw, _, j, hj, hr', _⟩ | ⟨j, hr', hs'⟩
    · have := hkept r hkeep
      omega
    · have := offset_add_le size hw
      omega
    · omega

theorem Moved.biUnique (hkept : ∀ r ∈ kept, r < start) :
    Relator.BiUnique (Moved size kept start names vars vars') :=
  ⟨fun _ _ _ h h' => Moved.unique hkept h.symm h'.symm, fun _ _ _ h h' => Moved.unique hkept h h'⟩

end Moved
end Variables

/-! ### Declaring -/

open Variables

/-- What is known of a store `t` in which `vars` are declared in the frame `r` of the store `s`. -/
structure Declared (r : FrameRef) (s : Store) (vars : Variables) (t : Store) : Prop where
  keeps : s.Keeps t
  frames_size : t.frames.size = s.frames.size
  objects_size : t.objects.size = s.objects.size + total (HostValue.room 1 0) vars
  functions_size : t.functions.size = s.functions.size + total (HostValue.room 0 1) vars
  frame_of_ne : ∀ r', r' ≠ r → t.frame r' = s.frame r'
  tests : (t.frame r).tests = (s.frame r).tests
  lookup_of_none : ∀ n, vars.lookup n = none →
    (t.frame r).vars.lookup n = (s.frame r).vars.lookup n
  lookup_of_some : ∀ n h, vars.lookup n = some h → ∃ (s' : Store) (v : Value),
    s'.objects.size = s.objects.size + offset (HostValue.room 1 0) vars n ∧
    s'.functions.size = s.functions.size + offset (HostValue.room 0 1) vars n ∧
    (Eval.ofHost h).result s' = .ok v ∧ (t.frame r).vars.lookup n = some v ∧
    ((Eval.ofHost h).after s').Keeps t

theorem Store.keeps_extend (st : Store) (os : List (Slots Text Value)) (fs : List Function) :
    st.Keeps (st.extend os fs) where
  objects i hi := by simp [Store.extend, Array.getElem?_append, hi]
  functions i hi := by simp [Store.extend, Array.getElem?_append, hi]

theorem Declared.nil (r : FrameRef) (s : Store) : Declared r s [] s where
  keeps := ⟨fun _ _ => rfl, fun _ _ => rfl⟩
  frames_size := rfl
  objects_size := rfl
  functions_size := rfl
  frame_of_ne _ _ := rfl
  tests := rfl
  lookup_of_none _ _ := rfl
  lookup_of_some _ _ h := by cases h

/-- One more variable, declared before the others. -/
theorem Declared.cons {r : FrameRef} {s t : Store} {name : String} {h : HostValue}
    {vars : Variables} (hr : r < s.frames.size) (hname : vars.lookup name = none)
    (a : Eval.Allocation (Eval.ofHost h) s (h.room 1 0) (h.room 0 1))
    (ht : Declared r ((s.extend a.objects a.functions).bind r name a.answer) vars t) :
    Declared r s ((name, h) :: vars) t := by
  set s' := (s.extend a.objects a.functions).bind r name a.answer with hs'
  have hobjects : s'.objects.size = s.objects.size + h.room 1 0 := by
    simp [hs', Store.bind, Store.extend, a.objects_length]
  have hfunctions : s'.functions.size = s.functions.size + h.room 0 1 := by
    simp [hs', Store.bind, Store.extend, a.functions_length]
  have hkeeps : (s.extend a.objects a.functions).Keeps s' := ⟨fun _ _ => rfl, fun _ _ => rfl⟩
  have hframe : ∀ r', s'.frame r' = if r = r' ∧ r < s.frames.size then
      { s.frame r' with vars := (s.frame r').vars.put name a.answer } else s.frame r' :=
    fun r' => Store.Alike.frame_bind (s.extend a.objects a.functions) r r' name a.answer
  have hlookup : ∀ n, n ≠ name →
      (s'.frame r).vars.lookup n = (s.frame r).vars.lookup n := by
    intro n hn
    rw [hframe, if_pos ⟨rfl, hr⟩]
    exact Slots.lookup_put_of_ne _ _ hn
  constructor
  case keeps =>
    exact ((s.keeps_extend a.objects a.functions).trans hkeeps).trans ht.keeps
  case frames_size => rw [ht.frames_size]; simp [hs', Store.bind, Store.extend]
  case objects_size => rw [ht.objects_size, hobjects]; simp only [total]; omega
  case functions_size => rw [ht.functions_size, hfunctions]; simp only [total]; omega
  case frame_of_ne =>
    intro r' hne
    rw [ht.frame_of_ne r' hne, hframe, if_neg fun h => hne h.1.symm]
  case tests => rw [ht.tests, hframe, if_pos ⟨rfl, hr⟩]
  case lookup_of_none =>
    intro n hn
    by_cases hne : name = n
    · subst hne
      rw [lookup_cons_self] at hn
      cases hn
    · rw [lookup_cons_of_ne hne] at hn
      rw [ht.lookup_of_none n hn, hlookup n (Ne.symm hne)]
  case lookup_of_some =>
    intro n g hn
    by_cases hne : name = n
    · subst hne
      rw [lookup_cons_self] at hn
      obtain rfl := Option.some.inj hn
      refine ⟨s, a.answer, ?_, ?_, a.result_eq, ?_, ?_⟩
      · simp [offset]
      · simp [offset]
      · rw [ht.lookup_of_none name hname, hframe, if_pos ⟨rfl, hr⟩]
        exact Slots.lookup_put_self _ _ _
      · rw [a.after_eq]
        exact hkeeps.trans ht.keeps
    · rw [lookup_cons_of_ne hne] at hn
      obtain ⟨s₁, v, hsize, hsize', hresult, hv, hkeep⟩ := ht.lookup_of_some n g hn
      refine ⟨s₁, v, ?_, ?_, hresult, hv, hkeep⟩
      · rw [hsize, hobjects]; simp only [offset, if_neg hne]; omega
      · rw [hsize', hfunctions]; simp only [offset, if_neg hne]; omega

/-- A name that is new is bound to what its value converts to. -/
theorem declare_eq_bind {scope : Scope} {s : Store} {name : String}
    (hnew : (s.frame scope.inner).vars.lookup name = none) (h : HostValue) :
    let converted := Eval.ofHost h >>= fun v => do
      Eval.bind scope name v
      return v
    (Eval.declare scope name h).result s = converted.result s ∧
      (Eval.declare scope name h).after s = converted.after s := by
  have hguard : ¬ ((s.frame scope.inner).vars.lookup name).isSome = true := by simp [hnew]
  unfold Eval.declare
  rw [Eval.result_bind_ok (Eval.result_get s), Eval.after_bind_ok (Eval.result_get s),
    Eval.after_get, if_neg hguard]
  exact ⟨rfl, rfl⟩

theorem declare_of_new {scope : Scope} {s : Store} {name : String} {h : HostValue}
    (hnew : (s.frame scope.inner).vars.lookup name = none)
    (a : Eval.Allocation (Eval.ofHost h) s (h.room 1 0) (h.room 0 1)) :
    (Eval.declare scope name h).result s = .ok a.answer ∧
      (Eval.declare scope name h).after s =
        (s.extend a.objects a.functions).bind scope.inner name a.answer := by
  obtain ⟨hresult, hafter⟩ := declare_eq_bind hnew h
  rw [hresult, hafter, Eval.result_bind_ok a.result_eq, Eval.after_bind_ok a.result_eq, a.after_eq]
  exact ⟨rfl, rfl⟩

theorem declareAll_cons (scope : Scope) (name : String) (h : HostValue) (vars : Variables) :
    Template.declareAll scope ((name, h) :: vars) =
      Eval.declare scope name h >>= fun _ => Template.declareAll scope vars := by
  show (Eval.declare scope name h >>= fun _ => pure ()) >>= (fun _ => Template.declareAll scope vars)
    = _
  rw [bind_assoc]
  rfl

/-- Variables of different names can be declared where none of them is yet, if they convert. -/
theorem declareAll_declared {scope : Scope} {s : Store} {vars : Variables}
    (hr : scope.inner < s.frames.size) (hconv : ∀ e ∈ vars, e.2.convertible)
    (hnodup : (Slots.names vars).Nodup)
    (hnew : ∀ n ∈ Slots.names vars, (s.frame scope.inner).vars.lookup n = none) :
    (Template.declareAll scope vars).result s = .ok () ∧
      Declared scope.inner s vars ((Template.declareAll scope vars).after s) := by
  induction vars generalizing s with
  | nil => exact ⟨rfl, .nil _ s⟩
  | cons e vars ih =>
    obtain ⟨name, h⟩ := e
    obtain ⟨hname, hnodup⟩ := List.nodup_cons.mp hnodup
    obtain ⟨a, -, -⟩ := Eval.ofHost_allocates h (hconv _ List.mem_cons_self) s s
    obtain ⟨hresult, hafter⟩ := declare_of_new (hnew name List.mem_cons_self) a
    have hlookup : List.lookup name vars = none := by
      refine List.lookup_eq_none_iff.mpr fun e he => bne_iff_ne.mpr ?_
      rintro rfl
      exact hname (List.mem_map.mpr ⟨e, he, rfl⟩)
    have hsize : scope.inner <
        ((s.extend a.objects a.functions).bind scope.inner name a.answer).frames.size := by
      simpa [Store.bind, Store.extend] using hr
    have hstillnew : ∀ n ∈ Slots.names vars,
        (((s.extend a.objects a.functions).bind scope.inner name a.answer).frame
          scope.inner).vars.lookup n = none := by
      intro n hn
      have hne : n ≠ name := by
        rintro rfl
        exact hname hn
      rw [Store.Alike.frame_bind]
      split
      · rw [Slots.lookup_put_of_ne _ _ hne]
        exact hnew n (List.mem_cons_of_mem _ hn)
      · exact hnew n (List.mem_cons_of_mem _ hn)
    rw [declareAll_cons, Eval.result_bind_ok hresult, Eval.after_bind_ok hresult, hafter]
    obtain ⟨hok, hdeclared⟩ :=
      ih hsize (fun e he => hconv e (List.mem_cons_of_mem _ he)) hnodup hstillnew
    exact ⟨hok, .cons hr hlookup a hdeclared⟩

end ChatTemplate
