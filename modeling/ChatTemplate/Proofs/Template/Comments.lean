import ChatTemplate.Proofs.Eval.Twins
import ChatTemplate.Template

/-!
# Comments leave no trace

`comments_invisible`: an accepted text is accepted without its comments, as the program without its
comments, and what the two print is the same. As they may nest unequally deep, each of them does
with more depth what the other does with less.
-/

namespace ChatTemplate

variable {β : Type}

/-! ### Rendering twins -/

namespace Eval.Twins
variable {base : FrameRef}

theorem rootScope {f : Bool → Scope → Eval β}
    (hf : ∀ inner : Scope, base ≤ inner.inner → Twins base fun i => f i inner) :
    Twins base fun i => Eval.rootScope >>= f i :=
  newScope [] Store.globalVars hf

theorem innerScope (outer : Scope) {f : Bool → Scope → Eval β}
    (hf : ∀ inner : Scope, base ≤ inner.inner → Twins base fun i => f i inner) :
    Twins base fun i => Eval.innerScope outer >>= f i :=
  newScope outer.chain [] hf

theorem declare {scope : Scope} (hscope : base ≤ scope.inner) (name : String) (h : HostValue) :
    Twins base fun _ => Eval.declare scope name h := by
  have hvalue : (logic Host.none base).Holds () fun _ => (do
      let v ← Eval.ofHost h
      Eval.bind scope name v
      return v : Eval Value) :=
    (Logic.Holds.ofHost h).bind fun v => (Logic.Holds.bindName hscope name v).bind fun _ => .pure v
  -- what is asked of the frame is the same in both stores, the stores are not
  have hasked : Twins base fun _ => (do
      if (← (do return (((← get).frame scope.inner).vars.lookup name).isSome : Eval Bool)) then
        Eval.fail (.redeclared name)
      let v ← Eval.ofHost h
      Eval.bind scope name v
      return v : Eval Value) := by
    refine .bind (.ask fun st hst => by rw [hst.frame_eq]) fun known => ?_
    cases known with
    | false => exact hvalue
    | true => exact .throw _
  exact .congr (fun _ _ _ => rfl) hasked

theorem declareAll {scope : Scope} (hscope : base ≤ scope.inner)
    (vars : List (String × HostValue)) :
    Twins base fun _ => Template.declareAll scope vars := by
  have heach (var : String × HostValue) : (logic Host.none base).Holds () fun _ => (do
      let _ ← Eval.declare scope var.1 var.2 : Eval Unit) :=
    .bind (declare hscope var.1 var.2) fun _ => .pure ()
  exact Logic.Holds.forM heach vars

theorem templateScope (vars : List (String × HostValue)) {f : Bool → Scope → Eval β}
    (hf : ∀ inner : Scope, base ≤ inner.inner → Twins base fun i => f i inner) :
    Twins base fun i => Template.scope vars >>= f i := by
  simp only [Template.scope, bind_assoc, pure_bind]
  refine rootScope fun globals hglobals => .bind (declareAll hglobals _) fun _ => ?_
  refine innerScope globals fun inner hinner => ?_
  exact .bind (declareAll hinner vars) fun _ => hf inner hinner

theorem render (host : Host) {n m : Nat} (h : n < m) {p : Bool → Program} (hp : Program.Twins p)
    (vars keywords : List (String × HostValue)) : Twins base fun i =>
      Template.render host (if i then m else n) ⟨p i⟩ vars keywords := by
  unfold Template.render Program.run
  refine templateScope _ fun inner hinner => ?_
  have hblock : (logic host base).Holds () fun i =>
      Eval.block (Evaluator.within host (if i then m else n)) inner "" (p i) :=
    block (Evaluator.within_twins host base h) hinner hp ""
  exact hblock.closedBlock

end Eval.Twins

/-- The frames that are still to come hold no tests. -/
theorem Store.twins_refl (st : Store) : Store.Twins st.frames.size fun _ => st where
  frames := rfl
  objects := rfl
  functions_size := rfl
  functions r := Function.twins_refl _
  base_le := Nat.le_refl _
  tests r hr := by
    have hnone : st.frames[r]? = none := Array.getElem?_eq_none hr
    rw [frame, hnone]
    rfl

/-! ### Templates -/

namespace Template

/-- What the first template does at any depth, the second does at any greater one: it prints the
same text, or fails for the same cause, if not at the same place. -/
def Precedes (t t' : Template) : Prop :=
  ∀ (host : Host) (vars keywords : List (String × HostValue)) (st : Store) (depth more : Nat),
    depth < more → (t.render host depth vars keywords).result st ≠ .error .endless →
      SameButPlace ((t.render host depth vars keywords).result st)
        ((t'.render host more vars keywords).result st)

theorem precedes_of_twins {p : Bool → Program} (h : Program.Twins p) :
    Precedes ⟨p false⟩ ⟨p true⟩ := by
  intro host vars keywords st depth more hdepth hends
  have hst : Store.Twins st.frames.size fun _ => st := Store.twins_refl st
  have hrun : Eval.Twins st.frames.size fun i =>
      Template.render host (if i then more else depth) ⟨p i⟩ vars keywords :=
    Eval.Twins.render host hdepth h vars keywords
  exact .of_sameUpTo ((hrun _ hst).resolve_left hends).1

/-- **Comments are invisible.** Of an accepted text the tokens that are no comments are accepted
too, as the program without the comments, and each of the two templates prints what the other
prints, or fails as the other fails. -/
theorem comments_invisible {ts : List Token} {p : Program} (h : Program.ofTokens ts = .ok p) :
    Program.ofTokens (ts.filter (·.kind != .comment)) = .ok p.bare ∧
      Precedes ⟨p⟩ ⟨p.bare⟩ ∧ Precedes ⟨p.bare⟩ ⟨p⟩ :=
  ⟨Program.ofTokens_shed h, precedes_of_twins (p.twins_bareIf id),
    precedes_of_twins (p.twins_bareIf not)⟩

/-- A choice with a comment before the text in it. -/
def commentedTokens : List Token := [
  ⟨.openStatement, "\x7b%", ⟨1, 1⟩⟩, ⟨.name, "if", ⟨1, 4⟩⟩, ⟨.name, "true", ⟨1, 7⟩⟩,
  ⟨.closeStatement, "%\x7d", ⟨1, 12⟩⟩, ⟨.comment, " note ", ⟨1, 14⟩⟩, ⟨.text, "x", ⟨1, 24⟩⟩,
  ⟨.openStatement, "\x7b%", ⟨1, 25⟩⟩, ⟨.name, "endif", ⟨1, 28⟩⟩,
  ⟨.closeStatement, "%\x7d", ⟨1, 34⟩⟩]

def commentedProgram : Program :=
  [.choice (.bool ⟨"true", ⟨1, 7⟩⟩) [.comment ⟨" note ", ⟨1, 14⟩⟩, .text ⟨"x", ⟨1, 24⟩⟩] []]

theorem choice_prints_without_comment :
    Program.ofTokens commentedTokens = .ok commentedProgram ∧
      commentedProgram.bare = [.choice (.bool ⟨"true", ⟨1, 7⟩⟩) [.text ⟨"x", ⟨1, 24⟩⟩] []] ∧
      ((⟨commentedProgram⟩ : Template).render Host.none 3 [] []).result Store.initial = .ok "x" ∧
      Program.ofTokens (commentedTokens.filter (·.kind != .comment)) = .ok commentedProgram.bare ∧
      Precedes ⟨commentedProgram⟩ ⟨commentedProgram.bare⟩ ∧
      Precedes ⟨commentedProgram.bare⟩ ⟨commentedProgram⟩ :=
  have h : Program.ofTokens commentedTokens = .ok commentedProgram := rfl
  ⟨h, rfl, rfl, comments_invisible h⟩

end Template
end ChatTemplate
