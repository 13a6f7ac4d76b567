import ChatTemplate.Compile
import ChatTemplate.Proofs.Eval.Callers

/-!
# Call blocks

A call block calls a macro from a scope in which `caller` is the body of the block, and keeps the
scope in which it stands as the home of the body. Whoever calls it, the body runs in a new frame
inside its home. So the macros in between have no part in what it prints, `call_block_hygiene`,
unless they hand over the body of another call block, which has a home of its own.
-/

namespace ChatTemplate

namespace Store

theorem pushFrame_bind (st : Store) (vars : Slots String Value) (name : String) (v : Value) :
    (st.pushFrame vars).bind st.frames.size name v = st.pushFrame (vars.put name v) := by
  have hframes : ((st.pushFrame vars).bind st.frames.size name v).frames =
      (st.pushFrame (vars.put name v)).frames := by
    refine Array.ext_getElem? fun i => ?_
    simp only [bind, pushFrame, Array.getElem?_modify, Array.getElem?_push]
    by_cases h : i = st.frames.size
    · simp [h]
    · simp [h, Ne.symm h]
  exact congrArg (fun frames => { st with frames }) hframes

/-- The store in which a call block calls its macro: a new frame binds `caller` to the body, a new
function that is at home in `scope`. -/
def withCaller (st : Store) (params : List String) (body : List Stmt) (scope : Scope) : Store :=
  (st.pushFrame [("caller", .function st.functions.size)]).pushFunction (.caller params body scope)

theorem lookup_withCaller (st : Store) (params : List String) (body : List Stmt) (scope : Scope) :
    (st.withCaller params body scope).lookup ⟨st.frames.size, scope.chain⟩ "caller" =
      .function st.functions.size := by
  have hframe : (st.withCaller params body scope).frame st.frames.size =
      ⟨[("caller", .function st.functions.size)], []⟩ :=
    (Alike.frame_pushFrame st _ _).trans (if_pos rfl)
  rw [lookup, Scope.chain, lookup?, List.findSome?_cons, hframe]
  rfl

theorem function_withCaller (st : Store) (params : List String) (body : List Stmt) (scope : Scope) :
    (st.withCaller params body scope).function st.functions.size = .caller params body scope := by
  simp [withCaller, function, pushFunction, pushFrame]

/-- No assignment changes a function. -/
theorem Changes.function_eq {st st' : Store} {ds : List Assigned} (h : Changes st ds st')
    {r : FunctionRef} (hr : r < st.functions.size) : st'.function r = st.function r := by
  induction h with
  | none h => exact h.function_eq hr
  | assign h _ ih =>
    rw [← h.function_eq hr]
    exact ih (Nat.lt_of_lt_of_le hr h.functions_size_le)

end Store

namespace Eval
variable {host : Host} {ev : Evaluator} {scope : Scope} {params : List String} {body : List Stmt}
  {vs : List Value} {st : Store}

/-! ### The call of a body -/

/-- The parameters of a call block with the values they are called with, in order. Where there is
none, a parameter is undefined. -/
def callerVars (params : List String) (vs : List Value) : Slots String Value :=
  Slots.putAll [] (params.zip (vs ++ List.replicate (params.length - vs.length) .undefined))

/-- Of parameters of one name, the last counts. -/
theorem lookup_callerVars {i : Nat} {name : String} (hname : params[i]? = some name)
    (hlast : name ∉ params.drop (i + 1)) :
    (callerVars params vs).lookup name = some (vs[i]?.getD .undefined) := by
  set items := vs ++ List.replicate (params.length - vs.length) Value.undefined with hitems
  obtain ⟨hi, -⟩ := List.getElem?_eq_some_iff.mp hname
  have hlength : params.length ≤ items.length := by
    rw [hitems, List.length_append, List.length_replicate]
    omega
  have hitem : items[i]? = some (vs[i]?.getD .undefined) := by
    rw [hitems, List.getElem?_append]
    split
    · rename_i hlt
      simp [hlt]
    · rename_i hlt
      rw [List.getElem?_replicate, if_pos (by omega), List.getElem?_eq_none (Nat.le_of_not_lt hlt)]
      rfl
  have hentry : (params.zip items)[i]? = some (name, vs[i]?.getD .undefined) :=
    List.getElem?_zip_eq_some.mpr ⟨hname, hitem⟩
  obtain ⟨hlt, hget⟩ := List.getElem?_eq_some_iff.mp hentry
  have hsplit : params.zip items = (params.zip items).take i ++
      (name, vs[i]?.getD .undefined) :: (params.zip items).drop (i + 1) := by
    rw [← hget, List.cons_getElem_drop_succ, List.take_append_drop]
  -- the last entry of a name is what is looked up, and this one has none behind it
  have hlater : ((params.zip items).drop (i + 1)).reverse.lookup name = none := by
    rw [Slots.lookup_eq_none, Slots.names, List.map_reverse, List.mem_reverse, List.map_drop]
    rwa [List.map_fst_zip hlength]
  rw [callerVars, ← hitems, Slots.lookup_putAll, hsplit, List.reverse_append, List.lookup_append,
    List.reverse_cons, List.lookup_append, hlater]
  simp

theorem leads_bindAll (outer : List FrameRef) (vars : Slots String Value) (names : List String)
    (vs : List Value) (st : Store) :
    Leads (bindAll ⟨st.frames.size, outer⟩ names vs) (st.pushFrame vars) ()
      (st.pushFrame (vars.putAll (names.zip vs))) := by
  unfold bindAll
  generalize names.zip vs = entries
  induction entries generalizing vars with
  | nil => exact .pure () _
  | cons e entries ih =>
    obtain ⟨name, v⟩ := e
    have hput : Leads (bind ⟨st.frames.size, outer⟩ name v) (st.pushFrame vars) ()
        (st.pushFrame (vars.put name v)) := ⟨rfl, st.pushFrame_bind vars name v⟩
    exact hput.bind (ih _)

/-- The body runs in a new frame inside its home, which holds its parameters. -/
theorem resumes_callCaller (ev : Evaluator) (params : List String) (body : List Stmt) (home : Scope)
    (a : Args) (st : Store) : Resumes (callCaller ev params body home a) st
      (return .string (← closedBlock ev ⟨st.frames.size, home.chain⟩ body))
      (st.pushFrame (callerVars params a.positional)) := by
  have hinner : Leads (innerScope home) st ⟨st.frames.size, home.chain⟩ (st.pushFrame []) :=
    ⟨rfl, rfl⟩
  exact (Resumes.of_leads hinner).trans (.of_leads (leads_bindAll home.chain [] params _ st))

/-! ### The call of the macro -/

theorem resumes_callBlock {callee : Word} {as ps : List Arg} {a : Args} {f : Value}
    {st₁ st₂ st₃ : Store} (hparams : Leads (ps.mapM callerParam) st params st₁)
    (hargs : Leads (args ev scope as Args.none) st₁ a st₂)
    (hcallee : Leads (ev.expr (.name callee) scope) st₂ f st₃) :
    Resumes (callBlock host ev scope callee as ps body) st
      (callValue ev host f a ⟨st₃.frames.size, scope.chain⟩) (st₃.withCaller params body scope) := by
  have hinner : Leads (innerScope scope) st₃ ⟨st₃.frames.size, scope.chain⟩ (st₃.pushFrame []) :=
    ⟨rfl, rfl⟩
  have hbody : Leads (newFunction (.caller params body scope)) (st₃.pushFrame [])
      (.function st₃.functions.size) ((st₃.pushFrame []).pushFunction (.caller params body scope)) :=
    ⟨rfl, rfl⟩
  have hbind : Leads (bind ⟨st₃.frames.size, scope.chain⟩ "caller" (.function st₃.functions.size))
      ((st₃.pushFrame []).pushFunction (.caller params body scope)) ()
      (st₃.withCaller params body scope) :=
    ⟨rfl, congrArg (Store.pushFunction · (.caller params body scope))
      (st₃.pushFrame_bind [] "caller" (.function st₃.functions.size))⟩
  exact (Resumes.of_leads hparams).trans <| (Resumes.of_leads hargs).trans <|
    (Resumes.of_leads hcallee).trans <| (Resumes.of_leads hinner).trans <|
    (Resumes.of_leads hbody).trans <| .of_leads hbind

/-- No evaluation changes a function that is there. -/
def KeepsFunctions {α : Type} (m : Eval α) : Prop :=
  ∀ st : Store, ∀ r < st.functions.size, (m.after st).function r = st.function r

theorem Assigns.keepsFunctions {α : Type} {m : (Assignment → Eval Unit) → Eval α} (h : Assigns m) :
    KeepsFunctions (m performed) := by
  intro st r hr
  obtain ⟨done, hchanges, -⟩ := h st
  exact hchanges.function_eq hr

theorem within_keepsFunctions (host : Host) (depth : Nat) :
    (∀ e scope, KeepsFunctions ((Evaluator.within host depth).expr e scope)) ∧
      (∀ s scope, KeepsFunctions ((Evaluator.within host depth).stmt s scope)) ∧
      ∀ v a scope, KeepsFunctions (callValue (Evaluator.within host depth) host v a scope) := by
  have hassigns := Evaluator.assigning_assigns host depth
  have hcall (v : Value) (a : Args) (scope : Scope) : Assigns fun put =>
      callValue (Evaluator.assigning put host depth) host v a scope :=
    Assigns.callValue (ω := ()) host hassigns v a trivial
  rw [← Evaluator.assigning_performed]
  exact ⟨fun e scope => (hassigns.expr e scope).keepsFunctions,
    fun s scope => (hassigns.stmt s scope).keepsFunctions,
    fun v a scope => (hcall v a scope).keepsFunctions⟩

/-! ### Hygiene -/

/-- **Call blocks are hygienic.** A call block calls its macro from a scope in which `caller` is the
body of the block, at home in the scope of the block. No evaluation changes what that function is,
or makes one whose home is not there. Called with whatever arguments, in whatever store and from
whatever scope, the body runs in a new frame inside its home that holds the parameters, undefined
where there is no argument, and its text is the result. So in two runs that have paired objects and
functions in common, what paired call blocks see from where they were written included, the body
prints the same for the same arguments, whatever frames there are between it and the call, unless
one of the runs lacks depth. -/
theorem call_block_hygiene (host : Host) (depth : Nat) :
    let ev := Evaluator.within host depth
    (∀ {scope callee as ps body params a f st st₁ st₂ st₃},
      Leads (ps.mapM callerParam) st params st₁ → Leads (args ev scope as Args.none) st₁ a st₂ →
      Leads (ev.expr (.name callee) scope) st₂ f st₃ →
      let inner : Scope := ⟨st₃.frames.size, scope.chain⟩
      let called := st₃.withCaller params body scope
      let r := st₃.functions.size
      Resumes (callBlock host ev scope callee as ps body) st (callValue ev host f a inner) called ∧
        called.lookup inner "caller" = .function r ∧
        called.function r = .caller params body scope ∧ r < called.functions.size) ∧
    ((∀ e scope, KeepsFunctions (ev.expr e scope)) ∧ (∀ s scope, KeepsFunctions (ev.stmt s scope)) ∧
      ∀ v a scope, KeepsFunctions (callValue ev host v a scope)) ∧
    (Store.initial.Homed ∧ ∀ {st}, st.Homed →
      (∀ (t : Template) vars keywords, ((t.render host depth vars keywords).after st).Homed) ∧
      ∀ {scope}, scope.Below st.frames.size → (∀ e, ((ev.expr e scope).after st).Homed) ∧
        (∀ s, ((ev.stmt s scope).after st).Homed) ∧
        ∀ v a, ((callValue ev host v a scope).after st).Homed) ∧
    (∀ {st r params body home}, st.function r = .caller params body home → ∀ a scope,
      Resumes (callValue ev host (.function r) a scope) st
        (return .string (← closedBlock ev ⟨st.frames.size, home.chain⟩ body))
        (st.pushFrame (callerVars params a.positional))) ∧
    (∀ {params i name} vs, params[i]? = some name → name ∉ params.drop (i + 1) →
      (callerVars params vs).lookup name = some (vs[i]?.getD .undefined)) ∧
    ∀ {p names st st'}, Store.Akin p names st st' → (∀ q : Pairing, p.Le q → host.Blind q) →
      ∀ {r r' params body home}, p.functions r r' → st.function r = .caller params body home →
      ∀ {a a' : Args}, a.Alike p a' → ∀ depth' scope scope',
      let x := (callValue ev host (.function r) a scope).result st
      let x' := (callValue (Evaluator.within host depth') host (.function r') a' scope').result st'
      x = .error .endless ∨ x' = .error .endless ∨ x = x' := by
  intro ev
  refine ⟨?block, within_keepsFunctions host depth, ⟨Store.initial_homed, keeps_homed host depth⟩,
    ?call, fun _ => lookup_callerVars, ?runs⟩
  case block =>
    intro scope callee as ps body params a f st st₁ st₂ st₃ hparams hargs hcallee
    refine ⟨resumes_callBlock hparams hargs hcallee, st₃.lookup_withCaller params body scope,
      st₃.function_withCaller params body scope, ?_⟩
    simp [Store.withCaller, Store.pushFunction, Store.pushFrame]
  case call =>
    intro st r params body home hr a scope
    refine (callValue_function ev r a scope st).trans ?_
    rw [hr]
    exact resumes_callCaller ev params body home a st
  case runs =>
    intro p names st st' h hhost r r' params body home hr hcaller a a' ha depth' scope scope'
    exact callers_agree h hhost hr hcaller ha depth depth' scope scope'

/-! ### A body called from two places -/

/-- What a call block with the parameter `y` prints: `x` of its home and `y`. -/
def twoNames : List Stmt := [.output (.name ⟨"x", default⟩), .output (.name ⟨"y", default⟩)]

/-- The frames of these variables, one after the other, and `twoNames` at home in the last one. -/
def storeAtHome (frames : List (Slots String Value)) : Store :=
  { Store.initial with frames := (frames.map fun vars => (⟨vars, []⟩ : Frame)).toArray }.pushFunction
    (.caller ["y"] twoNames ⟨frames.length - 1, []⟩)

/-- The body of the one store goes with that of the other. -/
def bodyPairing : Pairing where
  objects _ _ := False
  functions r s := r = 3 ∧ s = 3
  objects_unique := ⟨nofun, nofun⟩
  functions_unique := ⟨fun _ _ _ h h' => h.1.trans h'.1.symm, fun _ _ _ h h' => h.2.trans h'.2.symm⟩

theorem storeAtHome_homed {frames : List (Slots String Value)} (h : frames ≠ []) :
    (storeAtHome frames).Homed := by
  intro r k hk
  have hpos : 0 < frames.length := List.length_pos_iff.mpr h
  have hr : r < 4 := Store.lt_size_of_homeChain hk
  match r with
  | 3 =>
    obtain rfl := List.mem_singleton.mp hk
    simp only [storeAtHome, Store.pushFunction, List.size_toArray, List.length_map]
    exact Nat.sub_one_lt_of_lt hpos
  | 0 | 1 | 2 => exact absurd hk List.not_mem_nil

/-- A frame in which `x` is something else lies between the body and the second call, and yet both
calls print the same. -/
theorem caller_prints_what_its_home_binds :
    let st := storeAtHome [[("x", .string "1")]]
    let st' := storeAtHome [[("x", .string "2")], [("x", .string "1")]]
    let call := fun scope =>
      callValue (Evaluator.within Host.none 5) Host.none (.function 3) ⟨[.string "!"], []⟩ scope
    (call ⟨0, []⟩).result st = .ok (.string "1!") ∧
      (call ⟨0, []⟩).result st = (call ⟨0, [1]⟩).result st' := by
  intro st st' call
  obtain ⟨-, -, -, -, -, hruns⟩ := call_block_hygiene Host.none 5
  have hsame : ∀ n ∈ ({"x", "y"} : Set String),
      Option.Rel (Value.Alike bodyPairing) (st.lookup? [0] n) (st'.lookup? [1] n) := by
    rintro n (rfl | rfl)
    · exact .some (.string "1")
    · exact .none
  have hakin : Store.Akin bodyPairing {"x", "y"} st st' := by
    refine ⟨nofun, ?_, nofun, ?_, storeAtHome_homed nofun, storeAtHome_homed nofun⟩
    · rintro r s ⟨rfl, rfl⟩
      exact ⟨Nat.lt_succ_self 3, Nat.lt_succ_self 3⟩
    · rintro r s ⟨rfl, rfl⟩
      refine .caller ["y"] twoNames (fun n hn => ?_) hsame
      have hmem : n ∈ ["x", "y"] := hn
      simpa using hmem
  have hhost : ∀ q : Pairing, bodyPairing.Le q → Host.none.Blind q :=
    fun _ _ _ _ _ _ _ _ _ => .error _
  have hargs : Args.Alike bodyPairing ⟨[.string "!"], []⟩ ⟨[.string "!"], []⟩ :=
    ⟨.cons (.string _) .nil, .nil⟩
  have hfirst : (call ⟨0, []⟩).result st = .ok (.string "1!") := by rfl
  have hsecond : (call ⟨0, [1]⟩).result st' ≠ .error .endless := nofun
  refine ⟨hfirst, ?_⟩
  rcases hruns hakin hhost ⟨rfl, rfl⟩ rfl hargs 5 ⟨0, []⟩ ⟨0, [1]⟩ with hendless | hendless | hsame
  · exact absurd (hendless.symm.trans hfirst) nofun
  · exact absurd hendless hsecond
  · exact hsame

end Eval

namespace Template

/-- A macro has the body of another call block kept for it, which prints the macro's parameter, and
hands it to its own caller, before and after the parameter is bound anew. -/
def handingSource : String :=
  "\x7b% set n = namespace() %\x7d" ++
    "\x7b% macro k() %\x7d\x7b% set n.f = caller %\x7d\x7b% endmacro %\x7d" ++
    "\x7b% macro m(x) %\x7d\x7b% call k() %\x7d\x7b\x7b x \x7d\x7d\x7b% endcall %\x7d" ++
    "\x7b\x7b caller(n.f) \x7d\x7d\x7b% set x = 2 %\x7d" ++
    "\x7b\x7b caller(n.f) \x7d\x7d\x7b% endmacro %\x7d" ++
    "\x7b% call(g) m(1) %\x7d\x7b\x7b g() \x7d\x7d\x7b% endcall %\x7d"

theorem handingSource_prints : (compile ⟨true, true⟩ handingSource).toOption.bind
    (fun t => ((t.render Host.none 12 [] []).result Store.initial).toOption) = some "12" := by
  decide +kernel

/-- A body that calls what it is given, at home in the first frame, and one that prints `x`, at home
in the second, where `x` is a variable. -/
def handingStore (x : Value) : Store where
  frames := #[⟨[], []⟩, ⟨[("x", x)], []⟩]
  objects := #[]
  functions := #[.caller ["g"] [.output (.call (.name ⟨"g", default⟩) [])] ⟨0, []⟩,
    .caller [] [.output (.name ⟨"x", default⟩)] ⟨1, [0]⟩]

/-- The body of another call block, given as an argument, sees the variables of the macro in which it
was written. So with the same arguments, the same objects and the same bindings of its own, a body
prints one thing or another. -/
theorem handed_body_sees_macro :
    let st := fun i : Int => handingStore (.int i)
    let call := Eval.callValue (Evaluator.within Host.none 6) Host.none (.function 0)
      ⟨[.function 1], []⟩ ⟨1, [0]⟩
    (∃ t, compile ⟨true, true⟩ handingSource = .ok t ∧
      (t.render Host.none 12 [] []).result Store.initial = .ok "12") ∧
    (∀ i j, (st i).objects = (st j).objects ∧ (st i).functions = (st j).functions ∧
      (st i).frame 0 = (st j).frame 0) ∧
    call.result (st 1) = .ok (.string "1") ∧ call.result (st 2) = .ok (.string "2") := by
  refine ⟨?_, fun _ _ => ⟨rfl, rfl, rfl⟩, by rfl, by rfl⟩
  have hprints := handingSource_prints
  cases ht : compile ⟨true, true⟩ handingSource with
  | error f => rw [ht] at hprints; cases hprints
  | ok t =>
    rw [ht] at hprints
    refine ⟨t, rfl, ?_⟩
    cases hresult : (t.render Host.none 12 [] []).result Store.initial with
    | error f => rw [Except.toOption, Option.bind_some, hresult] at hprints; cases hprints
    | ok text => rw [Except.toOption, Option.bind_some, hresult] at hprints; cases hprints; rfl

end Template
end ChatTemplate
