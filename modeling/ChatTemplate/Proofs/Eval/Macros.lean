import ChatTemplate.Proofs.Eval.Frames
import ChatTemplate.Proofs.Eval.Loops
import ChatTemplate.Proofs.Eval.View
import ChatTemplate.Proofs.Grammar.ArgumentOrder

/-!
# Macros

A call of a macro fits (`Args.Fits`) or fails before anything of the template is evaluated. Where it
fits, the parameters are bound one after the other in a new frame (`Eval.Binds`), each to what
supplies it (`Eval.Supplied`); a default is evaluated in that frame, when those before it are bound.
Then the body runs in that frame.
-/

namespace ChatTemplate

/-- Plain parameters stand before those with a default. -/
def Param.PlainFirst (params : List Param) : Prop :=
  params.Pairwise fun p q => p.default.isSome → q.default.isSome

namespace Args

/-- The arguments that a macro with these parameters takes: none too many, no keyword that is no
parameter, and no plain parameter left without a value. -/
structure Fits (a : Args) (params : List Param) : Prop where
  few : a.positional.length ≤ params.length
  known : ∀ name ∈ a.keywords.names, name ∈ params.map Param.name
  supplied : ∀ p ∈ params.drop a.positional.length, p.default = Option.none →
    p.name ∈ a.keywords.names

/-- The parameter `p` of index `i` has no argument, but the default `e`. -/
structure Lacks (a : Args) (i : Nat) (p : Param) (e : Expr) : Prop where
  position : a.positional.length ≤ i
  keyword : p.name ∉ a.keywords.names
  default : p.default = some e

end Args

namespace Eval

/-- From `st` the one evaluation does what the other does from `st'`. -/
structure Resumes {α : Type} (m : Eval α) (st : Store) (m' : Eval α) (st' : Store) : Prop where
  result : m.result st = m'.result st'
  after : m.after st = m'.after st'

namespace Resumes
variable {α β : Type} {m m' m'' : Eval α} {f : α → Eval β} {st st' st'' : Store}

theorem refl (m : Eval α) (st : Store) : Resumes m st m st := ⟨rfl, rfl⟩

theorem trans (h : Resumes m st m' st') (h' : Resumes m' st' m'' st'') : Resumes m st m'' st'' :=
  ⟨h.result.trans h'.result, h.after.trans h'.after⟩

theorem of_leads {a : α} (h : Leads m st a st') : Resumes (m >>= f) st (f a) st' :=
  ⟨by rw [result_bind_ok h.result, h.after], by rw [after_bind_ok h.result, h.after]⟩

end Resumes

section
variable (ev : Evaluator) (inner : Scope) (a : Args)

/-- From the first store, `v` is the value of the parameter `p` of index `i` in a call with the
arguments `a`, and getting it leaves the second store. -/
inductive Supplied (i : Nat) (p : Param) : Store → Value → Store → Prop
  | position {st : Store} {v : Value} (h : a.positional[i]? = some v) : Supplied i p st v st
  | keyword {st : Store} {v : Value} (position : a.positional.length ≤ i)
      (h : a.keywords.lookup p.name = some v) : Supplied i p st v st
  | default {st st' : Store} {v : Value} {e : Expr} (lacks : a.Lacks i p e)
      (h : Leads (ev.expr e inner) st v st') : Supplied i p st v st'

/-- From the first store, the parameters of a list, the first one of index `i`, are bound to the
values in the frame of `inner` one after the other, which leaves the second store. -/
inductive Binds : Nat → Store → List Param → List Value → Store → Prop
  | nil (i : Nat) (st : Store) : Binds i st [] [] st
  | cons {i : Nat} {p : Param} {v : Value} {ps : List Param} {vs : List Value} {st st₁ st' : Store}
      (value : Supplied ev inner a i p st v st₁)
      (rest : Binds (i + 1) (st₁.bind inner.inner p.name v) ps vs st') :
      Binds i st (p :: ps) (v :: vs) st'

/-- The default of one of the parameters fails with `f`, once those before it are bound. -/
def DefaultFails (i : Nat) (st : Store) (params : List Param) (f : Fault) : Prop :=
  ∃ before p after e vs st₁, params = before ++ p :: after ∧ Binds ev inner a i st before vs st₁ ∧
    a.Lacks (i + before.length) p e ∧ (ev.expr e inner).result st₁ = .error f

end

variable {ev : Evaluator} {host : Host} {inner scope : Scope} {a : Args} {i : Nat} {p : Param}
  {params ps : List Param} {name : String} {body : List Stmt} {v : Value} {vs : List Value}
  {st st₁ st' : Store} {f : Fault}

/-! ### The parameters of a definition -/

theorem plainFirst_of_ordered {named : Bool} {as : List Arg} (h : Grammar.ordered named as)
    (hps : (as.mapM param).result st = .ok ps) :
    Param.PlainFirst ps ∧ (named = true → ∀ p ∈ ps, p.default.isSome) := by
  induction as generalizing named st ps with
  | nil =>
    cases hps
    exact ⟨.nil, nofun⟩
  | cons a as ih =>
    rw [List.mapM_cons] at hps
    obtain ⟨p, hp, hps⟩ := result_bind_eq_ok hps
    obtain ⟨qs, hqs, ⟨⟩⟩ := result_bind_eq_ok hps
    cases a with
    | positional e =>
      simp only [Grammar.ordered, Bool.and_eq_true, Bool.not_eq_true'] at h
      obtain ⟨rfl, h⟩ := h
      cases e with
      | name w =>
        cases hp
        exact ⟨.cons (fun _ _ => nofun) (ih h hqs).1, nofun⟩
      | _ => cases hp
    | keyword w e =>
      cases hp
      have hrest : Grammar.ordered true as := h
      obtain ⟨hplain, hdefaults⟩ := ih hrest hqs
      exact ⟨.cons (fun q hq _ => hdefaults rfl q hq) hplain,
        fun _ => List.forall_mem_cons.mpr ⟨rfl, hdefaults rfl⟩⟩
    | spread e => cases hp

/-- Of a macro whose definition is read from tokens, the plain parameters come first. -/
theorem plainFirst_of_macroDefinition {n : Nat} {stmt : Reader Stmt} {ts rest : List Token}
    {name : Word} {params : List Arg} {body : List Stmt}
    (h : Grammar.macroDefinition n stmt ts = .ok (.defineMacro name params body, rest))
    (hps : (params.mapM param).result st = .ok ps) : Param.PlainFirst ps := by
  obtain ⟨_, _, _, ⟨⟩, hordered⟩ := Grammar.macroDefinition_ordered n stmt ts _ rest h
  exact (plainFirst_of_ordered hordered hps).1

/-! ### Binding the parameters -/

/-- What a parameter is bound to when the values `positional` are left. -/
def paramValue (ev : Evaluator) (scope : Scope) (keywords : Slots String Value) (p : Param)
    (positional : List Value) : Eval Value :=
  match positional, keywords.lookup p.name, p.default with
  | v :: _, _, _ => pure v
  | [], some v, _ => pure v
  | [], none, some e => ev.expr e scope
  | [], none, none => fail (.missingArgument p.name)

theorem bindParams_cons (keywords : Slots String Value) (p : Param) (ps : List Param)
    (positional : List Value) :
    bindParams ev scope keywords (p :: ps) positional = (do
      let v ← paramValue ev scope keywords p positional
      bind scope p.name v
      bindParams ev scope keywords ps positional.tail) := by
  rw [bindParams.eq_def]
  unfold paramValue
  dsimp only
  split <;> simp only [*]

theorem paramValue_of_lacks {e : Expr} (h : a.Lacks i p e) :
    paramValue ev scope a.keywords p (a.positional.drop i) = ev.expr e scope := by
  rw [paramValue.eq_def, List.drop_eq_nil_of_le h.position, Slots.lookup_eq_none.mpr h.keyword,
    h.default]

theorem Supplied.leads (h : Supplied ev inner a i p st v st₁) :
    Leads (paramValue ev inner a.keywords p (a.positional.drop i)) st v st₁ := by
  cases h with
  | position h =>
    obtain ⟨hi, rfl⟩ := List.getElem?_eq_some_iff.mp h
    rw [List.drop_eq_getElem_cons hi]
    exact .pure _ _
  | keyword position h =>
    rw [paramValue.eq_def, List.drop_eq_nil_of_le position, h]
    exact .pure _ _
  | default lacks h => rwa [paramValue_of_lacks lacks]

theorem Supplied.resumes (h : Supplied ev inner a i p st v st₁) (ps : List Param) :
    Resumes (bindParams ev inner a.keywords (p :: ps) (a.positional.drop i)) st
      (bindParams ev inner a.keywords ps (a.positional.drop (i + 1)))
      (st₁.bind inner.inner p.name v) := by
  rw [bindParams_cons, List.tail_drop]
  have hbind : Leads (bind inner p.name v) st₁ () (st₁.bind inner.inner p.name v) := ⟨rfl, rfl⟩
  exact (Resumes.of_leads h.leads).trans (.of_leads hbind)

theorem Binds.resumes (h : Binds ev inner a i st ps vs st₁) (later : List Param) :
    Resumes (bindParams ev inner a.keywords (ps ++ later) (a.positional.drop i)) st
      (bindParams ev inner a.keywords later (a.positional.drop (i + ps.length))) st₁ := by
  induction h with
  | nil i st => exact .refl _ st
  | cons value _ ih =>
    rw [List.length_cons, Nat.add_comm _ 1, ← Nat.add_assoc]
    exact (value.resumes _).trans ih

theorem Binds.leads (h : Binds ev inner a 0 st params vs st₁) :
    Leads (bindParams ev inner a.keywords params a.positional) st () st₁ := by
  have hrun := h.resumes []
  rw [List.append_nil] at hrun
  exact ⟨hrun.result, hrun.after⟩

theorem DefaultFails.result (h : DefaultFails ev inner a 0 st params f) :
    (bindParams ev inner a.keywords params a.positional).result st = .error f := by
  obtain ⟨before, p, after, e, vs, st₁, rfl, hbinds, hlacks, hfails⟩ := h
  refine (hbinds.resumes (p :: after)).result.trans ?_
  rw [bindParams_cons, paramValue_of_lacks hlacks, result_bind, hfails]

/-- The binding stops at a default that fails, or nowhere. -/
theorem binds_or_defaultFails
    (hsupplied : ∀ p ∈ params.drop (a.positional.length - i), p.default = none →
      p.name ∈ a.keywords.names) (st : Store) :
    (∃ vs st₁, Binds ev inner a i st params vs st₁) ∨
      ∃ f, DefaultFails ev inner a i st params f := by
  induction params generalizing i st with
  | nil => exact .inl ⟨[], st, .nil i st⟩
  | cons p ps ih =>
    have hrest : ∀ q ∈ ps.drop (a.positional.length - (i + 1)), q.default = none →
        q.name ∈ a.keywords.names := by
      intro q hq
      refine hsupplied q ?_
      rcases Nat.lt_or_ge i a.positional.length with hi | hi
      · rwa [show a.positional.length - i = a.positional.length - (i + 1) + 1 by omega]
      · rw [Nat.sub_eq_zero_of_le (by omega)] at hq ⊢
        exact List.mem_cons_of_mem p hq
    -- however `p` gets its value, the parameters behind it are bound or one of their defaults fails
    have bound {v : Value} {st₁ : Store} (value : Supplied ev inner a i p st v st₁) :
        (∃ vs st₁, Binds ev inner a i st (p :: ps) vs st₁) ∨
          ∃ f, DefaultFails ev inner a i st (p :: ps) f := by
      rcases ih hrest (st₁.bind inner.inner p.name v) with ⟨vs, st₂, hbinds⟩ | ⟨f, hfails⟩
      · exact .inl ⟨v :: vs, st₂, .cons value hbinds⟩
      · obtain ⟨before, q, after, e, vs, st₂, rfl, hbinds, hlacks, hfails⟩ := hfails
        refine .inr ⟨f, p :: before, q, after, e, v :: vs, st₂, rfl, .cons value hbinds, ?_, hfails⟩
        rwa [List.length_cons, Nat.add_comm _ 1, ← Nat.add_assoc]
    rcases Nat.lt_or_ge i a.positional.length with hi | hi
    · exact bound (.position (List.getElem?_eq_getElem hi))
    cases hk : a.keywords.lookup p.name with
    | some v => exact bound (.keyword hi hk)
    | none =>
      have hkeyword := Slots.lookup_eq_none.mp hk
      cases he : p.default with
      | none =>
        refine absurd (hsupplied p ?_ he) hkeyword
        rw [Nat.sub_eq_zero_of_le hi]
        exact List.mem_cons_self
      | some e =>
        have hlacks : a.Lacks i p e := ⟨hi, hkeyword, he⟩
        cases hresult : (ev.expr e inner).result st with
        | ok v => exact bound (.default hlacks (.of_result hresult))
        | error f => exact .inr ⟨f, [], p, ps, e, [], st, rfl, .nil i st, hlacks, hresult⟩

/-- The frame in which the parameters are bound holds them on top of what it held, and nothing else. -/
theorem Binds.frame (hev : ev.Isolates) (h : Binds ev inner a i st ps vs st')
    (hinner : inner.inner < st.frames.size) :
    st'.frame inner.inner =
      { st.frame inner.inner with
        vars := Slots.putAll (st.frame inner.inner).vars ((ps.map Param.name).zip vs) } := by
  induction h with
  | nil => rfl
  | @cons i p v ps vs st st₁ st' value _ ih =>
    -- a default binds names in frames of its own only, those of macros that it calls included
    have hkeeps : st.KeepsFrames (fun _ => False) st₁ := by
      cases value with
      | position => exact .refl st
      | keyword => exact .refl st
      | default _ h => exact h.after ▸ hev.expr (fun _ => False) _ inner st
    have hsize := Nat.lt_of_lt_of_le hinner hkeeps.size_le
    have hframe : st₁.frame inner.inner = st.frame inner.inner :=
      congrArg (·.getD ⟨[], []⟩) (hkeeps.frames _ hinner id)
    rw [ih (by simpa [Store.bind] using hsize), Store.Alike.frame_bind, if_pos ⟨rfl, hsize⟩, hframe]
    rfl

/-! ### Calls that do not fit -/

/-- Without an argument for a plain parameter the binding fails before a default is evaluated. -/
theorem bindParams_missing (scope : Scope) {keywords : Slots String Value} {positional : List Value}
    (hplain : Param.PlainFirst params)
    (h : ∃ p ∈ params.drop positional.length, p.default = none ∧ p.name ∉ keywords.names)
    (st : Store) : ∃ name st', ∀ ev,
      (bindParams ev scope keywords params positional).result st =
        .error (.error (.missingArgument name) none) ∧
      (bindParams ev scope keywords params positional).after st = st' := by
  induction params generalizing positional st with
  | nil =>
    obtain ⟨_, hp, -⟩ := h
    rw [List.drop_nil] at hp
    cases hp
  | cons p ps ih =>
    obtain ⟨hbefore, hrest⟩ := List.pairwise_cons.mp hplain
    have bound {v : Value} (hv : ∀ ev, paramValue ev scope keywords p positional = pure v)
        (hlater : ∃ q ∈ ps.drop positional.tail.length, q.default = none ∧ q.name ∉ keywords.names) :
        ∃ name st', ∀ ev,
          (bindParams ev scope keywords (p :: ps) positional).result st =
            .error (.error (.missingArgument name) none) ∧
          (bindParams ev scope keywords (p :: ps) positional).after st = st' := by
      obtain ⟨name, st', hfails⟩ := ih hrest hlater (st.bind scope.inner p.name v)
      refine ⟨name, st', fun ev => ?_⟩
      rw [bindParams_cons, hv ev]
      exact hfails ev
    obtain ⟨q, hq, hdefault, hkeyword⟩ := h
    cases positional with
    | cons v vs => exact bound (fun _ => rfl) ⟨q, hq, hdefault, hkeyword⟩
    | nil =>
      cases hk : keywords.lookup p.name with
      | some v =>
        refine bound (v := v) (fun ev => by rw [paramValue.eq_def, hk]) ⟨q, ?_, hdefault, hkeyword⟩
        rcases List.mem_cons.mp hq with rfl | hq
        · rw [Slots.lookup_eq_none.mpr hkeyword] at hk
          cases hk
        · exact hq
      | none =>
        -- were there a default here, so would there be for `q`
        have hp : p.default = none := by
          rcases List.mem_cons.mp hq with rfl | hq
          · exact hdefault
          · have := hbefore q hq
            rw [hdefault] at this
            exact Option.isNone_iff_eq_none.mp (by simpa using this)
        refine ⟨p.name, st, fun ev => ?_⟩
        rw [bindParams_cons, paramValue.eq_def, hk, hp]
        exact ⟨rfl, rfl⟩

theorem callMacro_of_known (few : a.positional.length ≤ params.length)
    (known : ∀ name ∈ a.keywords.names, name ∈ params.map Param.name) :
    callMacro ev name params body a scope = (do
      let inner ← innerScope scope
      bindParams ev inner a.keywords params a.positional
      return .string (← closedBlock ev inner body)) := by
  have hfind : (a.keywords.names.find? fun k => !(params.map Param.name).contains k) = none := by
    simpa using known
  rw [callMacro, hfind]
  simp only [Nat.not_lt.mpr few, if_false]

/-- When the parameters are bound, the call goes on with the body. -/
theorem callMacro_of_binds (hfits : a.Fits params) (name : String) (body : List Stmt)
    (h : Binds ev ⟨st.frames.size, scope.chain⟩ a 0 (st.pushFrame []) params vs st₁) :
    Resumes (callMacro ev name params body a scope) st
      (return .string (← closedBlock ev ⟨st.frames.size, scope.chain⟩ body)) st₁ := by
  rw [callMacro_of_known hfits.few hfits.known]
  exact (Resumes.of_leads (leads_innerScope scope st)).trans (.of_leads h.leads)

theorem callMacro_of_defaultFails (hfits : a.Fits params) (name : String) (body : List Stmt)
    (h : DefaultFails ev ⟨st.frames.size, scope.chain⟩ a 0 (st.pushFrame []) params f) :
    (callMacro ev name params body a scope).result st = .error f := by
  have hinner := leads_innerScope scope st
  rw [callMacro_of_known hfits.few hfits.known, result_bind_ok hinner.result, hinner.after,
    result_bind, h.result]

/-- A call that does not fit fails, and nothing of the template decides how. -/
theorem callMacro_of_not_fits (hplain : Param.PlainFirst params) (h : ¬a.Fits params)
    (name : String) (body : List Stmt) (scope : Scope) (st : Store) :
    ∃ cause st', cause.kind = .runtime ∧ ∀ ev,
      (callMacro ev name params body a scope).result st = .error (.error cause none) ∧
      (callMacro ev name params body a scope).after st = st' := by
  by_cases few : a.positional.length ≤ params.length
  case neg =>
    refine ⟨.macroArity name params.length a.positional.length, st.pushFrame [], rfl, fun ev => ?_⟩
    rw [callMacro]
    simp only [Nat.lt_of_not_le few, if_true]
    exact ⟨rfl, rfl⟩
  by_cases known : ∀ name ∈ a.keywords.names, name ∈ params.map Param.name
  case neg =>
    cases hfind : a.keywords.names.find? fun k => !(params.map Param.name).contains k with
    | none => exact absurd (by simpa using hfind) known
    | some k =>
      refine ⟨.macroKeyword name k, st.pushFrame [], rfl, fun ev => ?_⟩
      rw [callMacro, hfind]
      simp only [Nat.not_lt.mpr few, if_false]
      exact ⟨rfl, rfl⟩
  have hmissing : ∃ p ∈ params.drop a.positional.length, p.default = none ∧
      p.name ∉ a.keywords.names := by
    by_contra hnone
    exact h ⟨few, known, fun p hp hdefault => by_contra fun hkeyword =>
      hnone ⟨p, hp, hdefault, hkeyword⟩⟩
  obtain ⟨param, st', hfails⟩ := bindParams_missing ⟨st.frames.size, scope.chain⟩ hplain hmissing
    (st.pushFrame [])
  refine ⟨.missingArgument param, st', rfl, fun ev => ?_⟩
  have hinner := leads_innerScope scope st
  rw [callMacro_of_known few known, result_bind_ok hinner.result, after_bind_ok hinner.result,
    hinner.after, result_bind, after_bind, (hfails ev).1, (hfails ev).2]
  exact ⟨rfl, rfl⟩

/-! ### Defaults that are not needed -/

/-- The parameters of a macro without the defaults of those that have an argument. -/
def needed (keywords : Slots String Value) : List Param → List Value → List Param
  | [], _ => []
  | p :: ps, _ :: vs => ⟨p.name, none⟩ :: needed keywords ps vs
  | p :: ps, [] => (if p.name ∈ keywords.names then ⟨p.name, none⟩ else p) :: needed keywords ps []

theorem needed_names (keywords : Slots String Value) (params : List Param)
    (positional : List Value) :
    (needed keywords params positional).map Param.name = params.map Param.name := by
  fun_induction needed keywords params positional with
  | case1 => rfl
  | case2 p ps v vs ih => exact congrArg (p.name :: ·) ih
  | case3 p ps ih =>
    rw [List.map_cons, List.map_cons, ih]
    split <;> rfl

theorem bindParams_needed (scope : Scope) (keywords : Slots String Value) (params : List Param)
    (positional : List Value) :
    bindParams ev scope keywords (needed keywords params positional) positional =
      bindParams ev scope keywords params positional := by
  fun_induction needed keywords params positional with
  | case1 => rfl
  | case2 p ps v vs ih =>
    rw [bindParams_cons, bindParams_cons, List.tail_cons, ih]
    rfl
  | case3 p ps ih =>
    rw [bindParams_cons, bindParams_cons, List.tail_nil, ih]
    split
    · rename_i hk
      cases hv : keywords.lookup p.name with
      | none => exact absurd hk (Slots.lookup_eq_none.mp hv)
      | some v => rw [paramValue.eq_def, paramValue.eq_def, hv]
    · rfl

theorem callMacro_needed (name : String) (params : List Param) (body : List Stmt) (a : Args)
    (scope : Scope) :
    callMacro ev name (needed a.keywords params a.positional) body a scope =
      callMacro ev name params body a scope := by
  have hlength : (needed a.keywords params a.positional).length = params.length := by
    simpa using congrArg List.length (needed_names a.keywords params a.positional)
  unfold callMacro
  rw [hlength, needed_names]
  simp only [bindParams_needed]

/-! ### Calls -/

theorem resumes_callMacro {r : FunctionRef} (hr : st.function r = .defined name params body) :
    Resumes (callValue ev host (.function r) a scope) st (callMacro ev name params body a scope)
      st := by
  have hget : Leads get st st st := ⟨rfl, rfl⟩
  refine (Resumes.of_leads hget).trans ?_
  rw [hr]
  exact .refl _ st

/-- A macro binds its parameters in order, in a new frame inside the scope of the call: each to the
argument in its position, else to the keyword of its name, else to its default, which sees the
parameters before it and nothing else in that frame. Then its body runs there once, and its text is
the result. Arguments that do not fit are an error before any of this, whatever evaluates the body
and the defaults; the default of a parameter that has an argument is of no account. That plain
parameters come first is so of every definition that is read. -/
theorem macro_call (host : Host) (depth : Nat) {r : FunctionRef}
    (hr : st.function r = .defined name params body) (hplain : Param.PlainFirst params) (a : Args)
    (scope : Scope) :
    let ev := Evaluator.within host depth
    let inner : Scope := ⟨st.frames.size, scope.chain⟩
    let call := fun ev => callValue ev host (.function r) a scope
    (¬a.Fits params → ∃ cause st', cause.kind = .runtime ∧ ∀ ev,
      (call ev).result st = .error (.error cause none) ∧ (call ev).after st = st') ∧
    (a.Fits params →
      ((∃ vs st₁, Binds ev inner a 0 (st.pushFrame []) params vs st₁) ∨
        ∃ f, DefaultFails ev inner a 0 (st.pushFrame []) params f) ∧
      (∀ vs st₁, Binds ev inner a 0 (st.pushFrame []) params vs st₁ →
        Resumes (call ev) st (return .string (← closedBlock ev inner body)) st₁) ∧
      (∀ f, DefaultFails ev inner a 0 (st.pushFrame []) params f → (call ev).result st = .error f) ∧
      ∀ before vs st₁, Binds ev inner a 0 (st.pushFrame []) before vs st₁ →
        st₁.frame inner.inner = ⟨Slots.putAll [] ((before.map Param.name).zip vs), []⟩) ∧
    (∀ ev, callMacro ev name (needed a.keywords params a.positional) body a scope =
      callMacro ev name params body a scope) ∧
    ∀ {n stmt ts rest word as ss st' ps},
      Grammar.macroDefinition n stmt ts = .ok (.defineMacro word as ss, rest) →
      (as.mapM param).result st' = .ok ps → Param.PlainFirst ps := by
  intro ev inner call
  have hcall (ev) : Resumes (call ev) st (callMacro ev name params body a scope) st :=
    resumes_callMacro hr
  refine ⟨fun hmisfit => ?misfit, fun hfits => ⟨?binds, ?body, ?fails, ?frame⟩, fun ev => ?needed,
    plainFirst_of_macroDefinition⟩
  case misfit =>
    obtain ⟨cause, st', hkind, hfails⟩ := callMacro_of_not_fits hplain hmisfit name body scope st
    refine ⟨cause, st', hkind, fun ev => ?_⟩
    rw [(hcall ev).result, (hcall ev).after]
    exact hfails ev
  case binds => exact binds_or_defaultFails hfits.supplied _
  case body =>
    intro vs st₁ hbinds
    exact (hcall ev).trans (callMacro_of_binds hfits name body hbinds)
  case fails =>
    intro f hfails
    exact (hcall ev).result.trans (callMacro_of_defaultFails hfits name body hfails)
  case frame =>
    intro before vs st₁ hbinds
    have hlt : st.frames.size < (st.pushFrame []).frames.size := by simp [Store.pushFrame]
    rw [hbinds.frame (Evaluator.within_isolates host depth) hlt, Store.Alike.frame_pushFrame,
      if_pos rfl]
  case needed => exact callMacro_needed name params body a scope

/-- In a call of a macro with the parameters `a` and `b=a`, one argument is enough: the default sees
it. -/
theorem macro_call_default_sees_first :
    let word (s : String) : Word := ⟨s, default⟩
    let name (s : String) : Expr := .name (word s)
    let f : Function := .defined "m" [⟨"a", none⟩, ⟨"b", some (name "a")⟩] [.output (name "b")]
    let st := Store.initial.pushFunction f
    (callValue (Evaluator.within Host.none 4) Host.none (.function 3) ⟨[.int 1], []⟩ default).result
      st = .ok (.string "1") := by
  intro word name f st
  have hr : st.function 3 = f := rfl
  obtain ⟨-, hcall, -⟩ := macro_call Host.none 4 hr (.cons (by simp) (.cons nofun .nil))
    ⟨[.int 1], []⟩ default
  have hfits : Args.Fits ⟨[.int 1], []⟩ [⟨"a", none⟩, ⟨"b", some (name "a")⟩] :=
    ⟨by decide, nofun, by simp⟩
  exact ((hcall hfits).2.1 [.int 1, .int 1] _ <| .cons (.position rfl) <|
    .cons (.default (e := name "a") ⟨Nat.le_refl 1, nofun, rfl⟩ ⟨rfl, rfl⟩) (.nil _ _)).result

end Eval
end ChatTemplate
