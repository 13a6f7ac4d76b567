import ChatTemplate.Proofs.Eval.Cycles
import ChatTemplate.Proofs.Template.Variables

/-!
# Renderings that close no cycle

`Template.cycles_close_by_assignment`: values of the host hold no cycles, and a rendering closes one
only by assigning to a member of an object a value from which the object is reachable. Nothing
forbids such an assignment (`Template.namespace_reaches_itself`).
-/

namespace ChatTemplate
variable {n : ℕ} {O : Set ObjectRef}

namespace HostValue

mutual

/-- There is no function of the host in the value, and the objects of the template's own are among
these. -/
def Among (O : Set ObjectRef) : HostValue → Prop
  | .list items | .tuple items => AllAmong O items
  | .map entries => EntriesAmong O entries
  | .callable _ => False
  | .value v => v.Among O
  | .null | .bool _ | .int _ | .float _ | .string _ | .foreign _ => True

def AllAmong (O : Set ObjectRef) : List HostValue → Prop
  | [] => True
  | h :: hs => Among O h ∧ AllAmong O hs

def EntriesAmong (O : Set ObjectRef) : List (HostKey × HostValue) → Prop
  | [] => True
  | e :: es => EntryAmong O e ∧ EntriesAmong O es

def EntryAmong (O : Set ObjectRef) : HostKey × HostValue → Prop
  | (_, h) => Among O h

end

end HostValue

/-! ### Taking values over from the host -/

namespace Eval.Founds

mutual

theorem ofHost (h : HostValue) (hh : h.Among (Set.Iio n)) :
    Founds n Value.Below (Eval.ofHost h) := by
  cases h with
  | list items =>
    unfold Eval.ofHost
    refine (ofHostItems items hh).bind fun _ _ vs hvs => .pure fun _ hk => ?_
    exact Value.among_array.mpr fun v hv => (hvs v hv).mono hk
  | tuple items =>
    unfold Eval.ofHost
    refine (ofHostItems items hh).bind fun _ _ vs hvs => .pure fun _ hk => ?_
    exact Value.among_array.mpr fun v hv => (hvs v hv).mono hk
  | map entries =>
    unfold Eval.ofHost
    exact (ofHostEntries entries hh).bind fun _ _ es hes =>
      newObject (Slots.forall_putAll nofun hes)
  | callable f => exact hh.elim
  | foreign typeName =>
    unfold Eval.ofHost
    exact fail _
  | value v =>
    unfold Eval.ofHost
    exact .pure fun _ hk => Value.Below.mono hh hk
  | _ =>
    unfold Eval.ofHost
    exact .pure fun _ _ => nofun

theorem ofHostItems (hs : List HostValue) (hhs : HostValue.AllAmong (Set.Iio n) hs) :
    Founds n (fun k vs => ∀ v ∈ vs, v.Below k) (Eval.ofHostItems hs) := by
  cases hs with
  | nil => exact .pure fun _ _ => nofun
  | cons h hs =>
    unfold Eval.ofHostItems
    refine (ofHost h hhs.1).bind fun k hk v hv => ?_
    refine ((ofHostItems hs hhs.2).weaken hk).bind fun k' hk' vs hvs => .pure fun _ hk'' => ?_
    exact List.forall_mem_cons.mpr
      ⟨hv.mono (hk'.trans hk''), fun w hw => (hvs w hw).mono hk''⟩

theorem ofHostEntries (es : List (HostKey × HostValue))
    (hes : HostValue.EntriesAmong (Set.Iio n) es) :
    Founds n (fun k es => ∀ e ∈ es, e.2.Below k) (Eval.ofHostEntries es) := by
  cases es with
  | nil => exact .pure fun _ _ => nofun
  | cons e es =>
    unfold Eval.ofHostEntries
    refine (ofHostEntry e hes.1).bind fun k hk x hx => ?_
    refine ((ofHostEntries es hes.2).weaken hk).bind fun k' hk' xs hxs => .pure fun _ hk'' => ?_
    exact List.forall_mem_cons.mpr
      ⟨hx.mono (hk'.trans hk''), fun y hy => (hxs y hy).mono hk''⟩

theorem ofHostEntry (e : HostKey × HostValue) (he : HostValue.EntryAmong (Set.Iio n) e) :
    Founds n (fun k x => x.2.Below k) (Eval.ofHostEntry e) := by
  obtain ⟨k, h⟩ := e
  unfold Eval.ofHostEntry
  exact (ofHost h he).bind fun _ _ v hv => .pure fun _ hk => hv.mono hk

end

theorem declare (scope : Scope) (name : String) {h : HostValue} (hh : h.Among (Set.Iio n)) :
    Founds n Value.Below (Eval.declare scope name h) := by
  unfold Eval.declare
  refine get.bind fun k hk st _ => ?_
  split
  · exact fail_bind _
  refine ((ofHost h hh).weaken hk).bind fun _ _ v hv => ?_
  refine (bindName scope name hv).bind fun _ hk₁ _ _ => .pure fun _ hk₂ => ?_
  exact hv.mono (hk₁.trans hk₂)

theorem declareAll (scope : Scope) {vars : Variables}
    (hvars : ∀ e ∈ vars, e.2.Among (Set.Iio n)) : Sustains n (Template.declareAll scope vars) :=
  forM fun e he _ hk =>
    ((declare scope e.1 (hvars e he)).weaken hk).bind fun _ _ _ _ => .pure fun _ _ => trivial

theorem rootScope : Sustains n Eval.rootScope := by
  have hglobals (k : ℕ) : ∀ e ∈ Store.globalVars, e.2.Below k := by
    intro e he
    obtain ⟨_, -, rfl⟩ := List.mem_map.mp he
    exact Value.among_function _
  exact fun st hst _ => ⟨hst.pushFrame (hglobals _), le_rfl, fun _ _ => trivial⟩

theorem scope {vars : Variables} (hvars : ∀ e ∈ vars, e.2.Among (Set.Iio n)) :
    Sustains n (Template.scope vars) := by
  have hconstants : ∀ e ∈ Template.constants, ∀ k, e.2.Among (Set.Iio k) := by
    simp [Template.constants, HostValue.Among]
  unfold Template.scope
  refine rootScope.bind fun k hk globals _ => ?_
  refine (declareAll globals fun e he => hconstants e he k).bind fun k₁ hk₁ _ _ => ?_
  refine (innerScope globals).bind fun k₂ hk₂ inner _ => ?_
  exact ((declareAll inner hvars).weaken (hk.trans (hk₁.trans hk₂))).bind fun _ _ _ _ =>
    .pure fun _ _ => trivial

end Eval.Founds

/-! ### Rendering -/

namespace Eval

theorem keeps_rootScope : rootScope.Respects Store.Keeps :=
  keeps_of_frames (fun _ => rfl) fun _ => rfl

theorem keeps_declare (scope : Scope) (name : String) (h : HostValue) :
    (declare scope name h).Respects Store.Keeps := by
  unfold declare
  refine .bind .get fun st => ?_
  split
  · exact .fail_bind _
  · exact (Adds.ofHost h).keeps.bind fun v => (keeps_bind scope name v).bind fun _ => .pure v

end Eval

namespace Template

theorem keeps_declareAll (scope : Scope) (vars : Variables) :
    (declareAll scope vars).Respects Store.Keeps := by
  induction vars with
  | nil => exact .pure ()
  | cons e vars ih =>
    rw [declareAll_cons]
    exact (Eval.keeps_declare scope e.1 e.2).bind fun _ => ih

theorem keeps_scope (vars : Variables) : (scope vars).Respects Store.Keeps := by
  unfold scope
  refine Eval.keeps_rootScope.bind fun globals => (keeps_declareAll globals _).bind fun _ => ?_
  exact (Eval.keeps_innerScope globals).bind fun inner =>
    (keeps_declareAll inner vars).bind fun _ => .pure inner

variable (put : Assignment → Eval Unit) (host : Host) (depth : Nat) (t : Template)
  (vars keywords : Variables)

/-- The text of a template that does with assignments to members what `put` says. -/
def assigning : Eval Text := do
  let s ← scope (vars.merge keywords)
  Eval.closedBlock (Evaluator.assigning put host depth) s t.program

theorem assigning_performed :
    t.assigning Eval.performed host depth vars keywords = t.render host depth vars keywords := by
  rw [assigning, Evaluator.assigning_performed]
  rfl

theorem assigning_assigns :
    Eval.Assigns fun put => t.assigning put host depth vars keywords := by
  refine Eval.Assigns.bind (.const (keeps_scope _)) fun s => ?_
  have hblock := Eval.Assigns.block host (Evaluator.assigning_assigns host depth) s "" t.program
  exact Eval.Logic.Holds.closedBlock hblock

variable {vars keywords}

theorem assigning_careful (hvars : ∀ e ∈ vars.merge keywords, e.2.Among (Set.Iio n)) :
    Eval.Careful n fun put => t.assigning put host depth vars keywords := by
  intro stop f hstop
  have hfounds := Evaluator.assigning_founds hstop f host depth
  exact (Eval.Founds.scope hvars).bind fun _ _ s _ => .closedBlock hfounds s t.program

/-- **A rendering closes a cycle only by an assignment to a member.** Given values without functions
of the host, no object is reachable from its own slots, and everything can be printed, compared and
handed out, until an object gets a member from whose value it is reachable. -/
theorem cycles_close_by_assignment {st : Store} (hst : st.Founded)
    (hvars : ∀ e ∈ vars, e.2.Among (Set.Iio st.objects.size))
    (hkeywords : ∀ e ∈ keywords, e.2.Among (Set.Iio st.objects.size)) :
    t.assigning Eval.performed host depth vars keywords = t.render host depth vars keywords ∧
      Eval.CyclesByAssignment (fun put => t.assigning put host depth vars keywords) st :=
  ⟨assigning_performed host depth t vars keywords,
    (assigning_assigns host depth t vars keywords).cyclesByAssignment
      (assigning_careful host depth t (Variables.forall_merge hvars hkeywords)) hst⟩

/-! ### A namespace that holds itself -/

/-- A namespace becomes a member of itself. -/
def selfReferenceSource : String :=
  "\x7b% set ns = namespace() %\x7d\x7b% set ns.a = ns %\x7d\x7b\x7b ns.a.a is defined \x7d\x7d"

/-- The template of `selfReferenceSource`. -/
def selfReference : Template :=
  ⟨[.assign (.name ⟨"ns", ⟨1, 8⟩⟩) (.call (.name ⟨"namespace", ⟨1, 13⟩⟩) []),
    .assign (.member (.name ⟨"ns", ⟨1, 34⟩⟩) ⟨"a", ⟨1, 37⟩⟩) (.name ⟨"ns", ⟨1, 41⟩⟩),
    .output (.test
      (.member (.member (.name ⟨"ns", ⟨1, 49⟩⟩) ⟨"a", ⟨1, 52⟩⟩) ⟨"a", ⟨1, 54⟩⟩)
      false ⟨"defined", ⟨1, 59⟩⟩)]⟩

theorem compile_selfReference :
    compile ⟨true, true⟩ selfReferenceSource = .ok selfReference := by
  have h : tokens (Layout.normalize ⟨true, true⟩ selfReferenceSource.toList) = .ok
      [⟨.openStatement, "\x7b%", ⟨1, 1⟩⟩, ⟨.name, "set", ⟨1, 4⟩⟩, ⟨.name, "ns", ⟨1, 8⟩⟩,
        ⟨.equals, "=", ⟨1, 11⟩⟩, ⟨.name, "namespace", ⟨1, 13⟩⟩, ⟨.openParen, "(", ⟨1, 22⟩⟩,
        ⟨.closeParen, ")", ⟨1, 23⟩⟩, ⟨.closeStatement, "%\x7d", ⟨1, 25⟩⟩,
        ⟨.openStatement, "\x7b%", ⟨1, 27⟩⟩, ⟨.name, "set", ⟨1, 30⟩⟩, ⟨.name, "ns", ⟨1, 34⟩⟩,
        ⟨.dot, ".", ⟨1, 36⟩⟩, ⟨.name, "a", ⟨1, 37⟩⟩, ⟨.equals, "=", ⟨1, 39⟩⟩,
        ⟨.name, "ns", ⟨1, 41⟩⟩, ⟨.closeStatement, "%\x7d", ⟨1, 44⟩⟩,
        ⟨.openExpression, "\x7b\x7b", ⟨1, 46⟩⟩, ⟨.name, "ns", ⟨1, 49⟩⟩, ⟨.dot, ".", ⟨1, 51⟩⟩,
        ⟨.name, "a", ⟨1, 52⟩⟩, ⟨.dot, ".", ⟨1, 53⟩⟩, ⟨.name, "a", ⟨1, 54⟩⟩,
        ⟨.name, "is", ⟨1, 56⟩⟩, ⟨.name, "defined", ⟨1, 59⟩⟩,
        ⟨.closeExpression, "\x7d\x7d", ⟨1, 67⟩⟩, ⟨.eof, "", ⟨1, 69⟩⟩] := by decide +kernel
  unfold compile Program.compile Program.ofText
  rw [h]
  rfl

/-- A namespace may be assigned to a member of itself. It is then reachable from its own slots, and
cannot be printed. -/
theorem namespace_reaches_itself :
    let rendered := selfReference.render Host.none 5 [] []
    compile ⟨true, true⟩ selfReferenceSource = .ok selfReference ∧
      rendered.result Store.initial = .ok "True" ∧
      (∃ e ∈ (rendered.after Store.initial).slots 0,
        (rendered.after Store.initial).Reaches e.2 0) ∧
      (Eval.textOf (.object 0)).result (rendered.after Store.initial) = .error .endless := by
  refine ⟨compile_selfReference, by rfl, ⟨("a", .object 0), ?_, 0, .object 0, .refl⟩, by rfl⟩
  exact List.mem_singleton_self _

theorem selfReference_cycles_by_assignment :
    let vars : Variables := [("x", .map [(.int 1, .list [.null])])]
    selfReference.assigning Eval.performed Host.none 5 vars [] =
        selfReference.render Host.none 5 vars [] ∧
      Eval.CyclesByAssignment (fun put => selfReference.assigning put Host.none 5 vars [])
        Store.initial :=
  cycles_close_by_assignment Host.none 5 selfReference Store.initial_founded
    (by
      simp [HostValue.Among, HostValue.EntriesAmong, HostValue.EntryAmong, HostValue.AllAmong])
    nofun

end Template
end ChatTemplate
