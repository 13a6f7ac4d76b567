import ChatTemplate.Proofs.Grammar.Items
import ChatTemplate.Proofs.Grammar.Takes

/-!
# The order of arguments

In every list of arguments or parameters that is read, those without a name come first
(`Grammar.argumentList_ordered`).
-/

namespace ChatTemplate.Grammar
open Reader

variable {α β : Type} {r : Reader α} {P : α → Prop} {expr : Reader Expr} {n : Nat}

/-- Whatever tokens the reader is given, `P` holds of what it returns. -/
def Answers (r : Reader α) (P : α → Prop) : Prop := ∀ ts a rest, r ts = .ok (a, rest) → P a

theorem answers_pure {a : α} (h : P a) : Answers (pure a) P := by
  rintro ts _ _ ⟨⟩
  exact h

theorem answers_failAt {cause : GrammarCause} {t : Token} : Answers (failAt cause t) P := nofun

theorem Answers.bind {f : α → Reader β} {Q : β → Prop} (h : Answers r P)
    (hf : ∀ a, P a → Answers (f a) Q) : Answers (r >>= f) Q := by
  intro ts b rest hr
  obtain ⟨a, us, ha, hb⟩ := bind_eq_ok hr
  exact hf a (h ts a us ha) us b rest hb

theorem answers_bind {f : α → Reader β} {Q : β → Prop} (hf : ∀ a, Answers (f a) Q) :
    Answers (r >>= f) Q :=
  Answers.bind (P := fun _ => True) (fun _ _ _ _ => trivial) fun a _ => hf a

theorem argument_mayFollow (expr : Reader Expr) (named : Bool) :
    Answers (argument expr named) fun p => mayFollow named p.1 ∧ p.2 = givenByName named p.1 := by
  unfold argument
  refine answers_bind fun start => ?_
  split
  · exact answers_bind fun _ => answers_bind fun e => answers_pure ⟨rfl, rfl⟩
  · refine answers_bind fun value => answers_bind fun equals => ?_
    split
    · split
      · exact answers_bind fun e => answers_pure ⟨rfl, rfl⟩
      · exact answers_failAt
    split
    · exact answers_failAt
    · rename_i hnamed
      exact answers_pure ⟨by simpa [mayFollow] using hnamed, rfl⟩

theorem arguments_ordered (expr : Reader Expr) : ∀ named n,
    Answers (arguments expr named n) fun as => ordered named as := by
  have one {named : Bool} {p : Arg × Bool}
      (hp : mayFollow named p.1 ∧ p.2 = givenByName named p.1) {as : List Arg}
      (has : ordered p.2 as) : ordered named (p.1 :: as) := by
    rw [ordered_cons, Bool.and_eq_true, ← hp.2]
    exact ⟨hp.1, has⟩
  intro named n
  induction n generalizing named with
  | zero =>
    unfold arguments
    refine answers_bind fun closes => ?_
    split
    · exact answers_pure rfl
    · exact (argument_mayFollow expr named).bind fun p hp =>
        answers_bind fun _ => answers_pure (one hp rfl)
  | succ n ih =>
    unfold arguments
    refine answers_bind fun closes => ?_
    split
    · exact answers_pure rfl
    · refine (argument_mayFollow expr named).bind fun p hp => answers_bind fun comma => ?_
      split
      · exact (ih p.2).bind fun as has => answers_pure (one hp has)
      · exact answers_pure (one hp rfl)

/-- Nothing stands behind an argument with a name but arguments with a name and spread ones. -/
theorem argumentList_ordered (n : Nat) (expr : Reader Expr) :
    Answers (argumentList n expr) fun as => ordered false as :=
  answers_bind fun _ => (arguments_ordered expr false n).bind fun _ has =>
    answers_bind fun _ => answers_pure has

/-- The parameters of a macro definition are as ordered as the arguments of a call. -/
theorem macroDefinition_ordered (n : Nat) (stmt : Reader Stmt) :
    Answers (macroDefinition n stmt) fun s =>
      ∃ name params body, s = .defineMacro name params body ∧ ordered false params :=
  answers_bind fun name => (argumentList_ordered n _).bind fun params hparams =>
    answers_bind fun _ => answers_bind fun body => answers_pure ⟨name, params, body, rfl, hparams⟩

end ChatTemplate.Grammar
