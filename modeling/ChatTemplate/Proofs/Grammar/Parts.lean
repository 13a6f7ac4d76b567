import ChatTemplate.Proofs.Grammar.Spelling

/-!
# The parts of a program

`Expr.All P`: every expression in one satisfies `P`. `Stmt.Holds P S`: so do the expressions in a
statement, and every statement in it satisfies `S`, which is told whether a signal given there
reaches a loop of that statement. What the grammar makes of an accepted text has the properties that
single expressions and statements get from their own tokens (`Spelled.holds`).
-/

namespace ChatTemplate

def Arg.value : Arg → Expr
  | .positional e | .keyword _ e | .spread e => e

/-- The expressions that an expression is made of. -/
def Expr.parts : Expr → List Expr
  | .name _ | .int _ | .float _ | .string _ | .bool _ | .null _ => []
  | .array es | .tuple es => es
  | .object entries => entries.flatMap fun p => [p.1, p.2]
  | .binary l _ r => [l, r]
  | .unary _ e | .member e _ | .test e _ _ => [e]
  | .index e k => [e, k]
  | .slice e a b c => e :: (a.toList ++ (b.toList ++ c.toList))
  | .call f as => f :: as.map Arg.value
  | .filter e f => [e, f]
  | .select v t => [v, t]
  | .ternary t y n => [t, y, n]

/-- The expression and all in it satisfy `P`. -/
inductive Expr.All (P : Expr → Prop) : Expr → Prop
  | node {e : Expr} (here : P e) (parts : ∀ e' ∈ e.parts, All P e') : All P e

def Target.items : Target → List Expr
  | .name _ => []
  | .tuple es => es

/-- The expressions that a statement is made of, but for those in its blocks. -/
def Stmt.exprs : Stmt → List Expr
  | .comment _ | .text _ | .control .. => []
  | .output e => [e]
  | .choice t _ _ => [t]
  | .loop t e _ _ => e :: t.items
  | .assign t v => [t, v]
  | .capture t _ => [t]
  | .defineMacro _ params _ => params.map Arg.value
  | .callBlock _ as params _ => as.map Arg.value ++ (params.getD []).map Arg.value
  | .filterBlock f _ => [f]

/-- The statements in a statement, each with whether a signal given there reaches a loop: `inside`
tells that of the statement itself. -/
def Stmt.blocks (inside : Bool) : Stmt → List (Bool × Stmt)
  | .comment _ | .text _ | .output _ | .assign .. | .control .. => []
  | .choice _ body alternate => (body ++ alternate).map (inside, ·)
  | .loop _ _ body default => body.map (true, ·) ++ default.map (inside, ·)
  | .capture _ body | .defineMacro _ _ body | .callBlock _ _ _ body | .filterBlock _ body =>
    body.map (false, ·)

/-- The statement and all in it satisfy `S`, and the expressions in them satisfy `P`. -/
inductive Stmt.Holds (P : Expr → Prop) (S : Bool → Stmt → Prop) : Bool → Stmt → Prop
  | node {inside : Bool} {s : Stmt} (here : S inside s) (exprs : ∀ e ∈ s.exprs, e.All P)
      (blocks : ∀ x ∈ s.blocks inside, Holds P S x.1 x.2) : Holds P S inside s

variable {P : Expr → Prop} {S : Bool → Stmt → Prop}

theorem Expr.All.here {e : Expr} (h : e.All P) : P e := by
  cases h with
  | node here parts => exact here

theorem Expr.All.part {e e' : Expr} (h : e.All P) (he' : e' ∈ e.parts) : e'.All P := by
  cases h with
  | node here parts => exact parts e' he'

theorem Stmt.Holds.here {inside : Bool} {s : Stmt} (h : s.Holds P S inside) : S inside s := by
  cases h with
  | node here exprs blocks => exact here

theorem Stmt.Holds.expr {inside : Bool} {s : Stmt} {e : Expr} (h : s.Holds P S inside)
    (he : e ∈ s.exprs) : e.All P := by
  cases h with
  | node here exprs blocks => exact exprs e he

theorem Stmt.Holds.block {inside inside' : Bool} {s s' : Stmt} (h : s.Holds P S inside)
    (hs' : (inside', s') ∈ s.blocks inside) : s'.Holds P S inside' := by
  cases h with
  | node here exprs blocks => exact blocks (inside', s') hs'

theorem Expr.All.mono {P' : Expr → Prop} {e : Expr} (h : e.All P) (himp : ∀ e, P e → P' e) :
    e.All P' := by
  induction h with
  | node here parts ih => exact .node (himp _ here) ih

theorem Stmt.Holds.mono {P' : Expr → Prop} {S' : Bool → Stmt → Prop} {inside : Bool} {s : Stmt}
    (h : s.Holds P S inside) (hP : ∀ e, P e → P' e) (hS : ∀ b s, S b s → S' b s) :
    s.Holds P' S' inside := by
  induction h with
  | node here exprs blocks ih => exact .node (hS _ _ here) (fun e he => (exprs e he).mono hP) ih

theorem Expr.parts_of_target? {e : Expr} {t : Target} (h : e.target? = some t) :
    e.parts = t.items := by
  cases e <;> cases h <;> rfl

/-! ### Parts are smaller -/

theorem Arg.sizeOf_value_lt (a : Arg) : sizeOf a.value < sizeOf a := by
  cases a <;> simp only [Arg.value, Arg.positional.sizeOf_spec, Arg.keyword.sizeOf_spec,
    Arg.spread.sizeOf_spec] <;> omega

theorem Expr.sizeOf_lt_of_mem_parts {e e' : Expr} (h : e' ∈ e.parts) : sizeOf e' < sizeOf e := by
  cases e with
  | name _ | int _ | float _ | string _ | bool _ | null _ => cases h
  | array es =>
    have hlt : sizeOf e' < sizeOf es := List.sizeOf_lt_of_mem h
    rw [Expr.array.sizeOf_spec]
    omega
  | tuple es =>
    have hlt : sizeOf e' < sizeOf es := List.sizeOf_lt_of_mem h
    rw [Expr.tuple.sizeOf_spec]
    omega
  | object entries =>
    obtain ⟨p, hp, hep⟩ := List.mem_flatMap.mp h
    have hlt := List.sizeOf_lt_of_mem hp
    rw [show p = (p.1, p.2) from rfl, Prod.mk.sizeOf_spec] at hlt
    simp only [List.mem_cons, List.not_mem_nil, or_false] at hep
    rw [Expr.object.sizeOf_spec]
    rcases hep with rfl | rfl <;> omega
  | call f as =>
    rw [Expr.call.sizeOf_spec]
    rcases List.mem_cons.mp h with rfl | h
    · omega
    · obtain ⟨a, ha, rfl⟩ := List.mem_map.mp h
      have hlt := List.sizeOf_lt_of_mem ha
      have hvalue := a.sizeOf_value_lt
      omega
  | slice e a b c =>
    rw [Expr.slice.sizeOf_spec]
    have hsome {o : Option Expr} (ho : o = some e') : sizeOf e' < sizeOf o := by
      rw [ho, Option.some.sizeOf_spec]
      omega
    simp only [Expr.parts, List.mem_cons, List.mem_append, Option.mem_toList] at h
    rcases h with rfl | h | h | h
    · omega
    all_goals
      have hlt := hsome h
      omega
  | unary _ e | member e _ | test e _ _ =>
    obtain rfl := List.mem_singleton.mp h
    simp only [Expr.unary.sizeOf_spec, Expr.member.sizeOf_spec, Expr.test.sizeOf_spec]
    omega
  | binary l _ r | index l r | filter l r | select l r =>
    simp only [Expr.parts, List.mem_cons, List.not_mem_nil, or_false] at h
    rcases h with rfl | rfl
    all_goals
      simp only [Expr.binary.sizeOf_spec, Expr.index.sizeOf_spec, Expr.filter.sizeOf_spec,
        Expr.select.sizeOf_spec]
      omega
  | ternary t y n =>
    simp only [Expr.parts, List.mem_cons, List.not_mem_nil, or_false] at h
    rw [Expr.ternary.sizeOf_spec]
    rcases h with rfl | rfl | rfl <;> omega

theorem Stmt.sizeOf_lt_of_mem_blocks {inside : Bool} {s : Stmt} {x : Bool × Stmt}
    (h : x ∈ s.blocks inside) : sizeOf x.2 < sizeOf s := by
  have hmem {b : Bool} {ss : List Stmt} (hx : x ∈ ss.map (b, ·)) : sizeOf x.2 < sizeOf ss := by
    obtain ⟨s', hs', rfl⟩ := List.mem_map.mp hx
    exact List.sizeOf_lt_of_mem hs'
  cases s with
  | choice t body alternate =>
    rw [Stmt.blocks, List.map_append] at h
    rcases List.mem_append.mp h with h | h
    all_goals
      have hlt := hmem h
      rw [Stmt.choice.sizeOf_spec]
      omega
  | loop t e body default =>
    rcases List.mem_append.mp h with h | h
    all_goals
      have hlt := hmem h
      rw [Stmt.loop.sizeOf_spec]
      omega
  | capture _ body | defineMacro _ _ body | callBlock _ _ _ body | filterBlock _ body =>
    have hlt := hmem h
    simp only [Stmt.capture.sizeOf_spec, Stmt.defineMacro.sizeOf_spec, Stmt.callBlock.sizeOf_spec,
      Stmt.filterBlock.sizeOf_spec]
    omega
  | _ => cases h

theorem Expr.all_of_forall (h : ∀ e, P e) (e : Expr) : e.All P :=
  .node (h e) fun e' _ => all_of_forall h e'
termination_by sizeOf e
decreasing_by exact Expr.sizeOf_lt_of_mem_parts ‹_›

/-- What passes from each statement to those in it holds of all of them. -/
theorem Stmt.holds_of_blocks {I : Bool → Stmt → Prop}
    (hblocks : ∀ inside s, I inside s → ∀ x ∈ s.blocks inside, I x.1 x.2) (hP : ∀ e, P e)
    (inside : Bool) (s : Stmt) (h : I inside s) : s.Holds P I inside :=
  .node h (fun e _ => Expr.all_of_forall hP e) fun x hx =>
    holds_of_blocks hblocks hP x.1 x.2 (hblocks inside s h x hx)
termination_by sizeOf s
decreasing_by exact Stmt.sizeOf_lt_of_mem_blocks ‹_›

/-! ### From the chunks to the parts -/

mutual

/-- The expressions and statements at the top of a phrase have the properties, with all in them. -/
def Phrase.Holds (P : Expr → Prop) (S : Bool → Stmt → Prop) : Phrase → Prop
  | .expr e => e.All P
  | .entry k v => k.All P ∧ v.All P
  | .arg a => a.value.All P
  | .list xs => Phrase.AllHold P S xs
  | .args as => ∀ a ∈ as.getD [], a.value.All P
  | .parts _ es => ∀ e, some e ∈ es → e.All P
  | .stmt s | .choice s => ∀ inside, s.Holds P S inside
  | .block ss | .otherwise ss => ∀ inside, ∀ s ∈ ss, s.Holds P S inside

def Phrase.AllHold (P : Expr → Prop) (S : Bool → Stmt → Prop) : List Phrase → Prop
  | [] => True
  | x :: xs => x.Holds P S ∧ Phrase.AllHold P S xs

end

theorem Phrase.allHold_map {α : Type} {f : α → Phrase} {as : List α} :
    Phrase.AllHold P S (as.map f) ↔ ∀ a ∈ as, (f a).Holds P S := by
  induction as with
  | nil => simp [Phrase.AllHold]
  | cons a as ih => simp [Phrase.AllHold, ih]

theorem Phrase.Holds.node {e : Expr} (here : P e) (parts : ∀ e' ∈ e.parts, e'.All P) :
    (Phrase.expr e).Holds P S := by
  exact Expr.All.node here parts

/-- The property passes to the parts of chunks. -/
structure Hereditary (C : List Chunk → Prop) : Prop where
  left : ∀ {ps qs}, C (ps ++ qs) → C ps
  right : ∀ {ps qs}, C (ps ++ qs) → C qs

namespace Hereditary
variable {C : List Chunk → Prop} (hC : Hereditary C) {p : Chunk} {ps qs : List Chunk}
include hC

theorem tail (h : C (p :: ps)) : C ps := hC.right (show C ([p] ++ ps) from h)

theorem behind (h : C (qs ++ p :: ps)) : C ps := hC.tail (hC.right h)

theorem between {o c : TokenKind} {wo wc : Word} {ho : o.isMark} {hc : c.isMark}
    (h : C (Chunk.between wo wc ps ho hc)) : C ps :=
  hC.left (hC.tail h)

end Hereditary

/-- What a hereditary property of chunks gives of single expressions and statements, it gives of all
in a phrase. -/
theorem Spelled.holds {C : List Chunk → Prop} (hC : Hereditary C)
    (hexpr : ∀ e ps, Spelled (.expr e) ps → C ps → P e)
    (hstmt : ∀ inside s ps, Spelled (.stmt s) ps → C ps → S inside s)
    (hchoice : ∀ inside t body alternate, S inside (.choice t body alternate))
    {x : Phrase} {ps : List Chunk} (h : Spelled x ps) (hps : C ps) : x.Holds P S := by
  induction h with
  | name w => exact .node (hexpr _ _ (.name w) hps) nofun
  | bool h => exact .node (hexpr _ _ (.bool h) hps) nofun
  | null h => exact .node (hexpr _ _ (.null h) hps) nofun
  | int h => exact .node (hexpr _ _ (.int h) hps) nofun
  | float h => exact .node (hexpr _ _ (.float h) hps) nofun
  | string w more => exact .node (hexpr _ _ (.string w more) hps) nofun
  | parens he ih => exact ih (hC.between hps)
  | tuple hes ih => exact .node (hexpr _ _ (.tuple hes) hps) (Phrase.allHold_map.mp (ih hps))
  | array hes ih =>
    exact .node (hexpr _ _ (.array hes) hps) (Phrase.allHold_map.mp (ih (hC.between hps)))
  | object hes ih =>
    refine .node (hexpr _ _ (.object hes) hps) fun e he => ?_
    have hentries := Phrase.allHold_map.mp (ih (hC.between hps))
    obtain ⟨p, hp, hep⟩ := List.mem_flatMap.mp he
    simp only [List.mem_cons, List.not_mem_nil, or_false] at hep
    rcases hep with rfl | rfl
    · exact (hentries p hp).1
    · exact (hentries p hp).2
  | binary hl hr ihl ihr =>
    refine .node (hexpr _ _ (.binary hl hr) hps) ?_
    simpa [Expr.parts] using ⟨ihl (hC.left hps), ihr (hC.behind hps)⟩
  | notIn hl hr ihl ihr =>
    refine .node (hexpr _ _ (.notIn hl hr) hps) ?_
    simpa [Expr.parts] using ⟨ihl (hC.left hps), ihr (hC.behind hps)⟩
  | unary he ih =>
    refine .node (hexpr _ _ (.unary he) hps) ?_
    exact List.forall_mem_singleton.mpr (ih (hC.tail hps))
  | member he ih =>
    refine .node (hexpr _ _ (.member he) hps) ?_
    exact List.forall_mem_singleton.mpr (ih (hC.left hps))
  | index he hkey hmore ih ihkey =>
    refine .node (hexpr _ _ (.index he hkey hmore) hps) ?_
    simpa [Expr.parts] using ⟨ih (hC.left hps), ihkey (hC.left (hC.between (hC.right hps)))⟩
  | slice he hparts hlength ih ihparts =>
    refine .node (hexpr _ _ (.slice he hparts hlength) hps) ?_
    have hall := ihparts (hC.between (hC.right hps))
    simp only [Expr.parts, List.mem_cons, List.mem_append, Option.mem_toList,
      Option.join_eq_some_iff]
    rintro e (rfl | he | he | he)
    · exact ih (hC.left hps)
    all_goals exact hall e (List.mem_of_getElem? he)
  | call hf has ih ihargs =>
    refine .node (hexpr _ _ (.call hf has) hps) ?_
    simpa [Expr.parts] using ⟨ih (hC.left hps), ihargs (hC.right hps)⟩
  | filter he hf hform ih ihf =>
    refine .node (hexpr _ _ (.filter he hf hform) hps) ?_
    simpa [Expr.parts] using ⟨ih (hC.left hps), ihf (hC.behind hps)⟩
  | test he ih =>
    exact .node (hexpr _ _ (.test he) hps) (List.forall_mem_singleton.mpr (ih (hC.left hps)))
  | testNot he ih =>
    exact .node (hexpr _ _ (.testNot he) hps) (List.forall_mem_singleton.mpr (ih (hC.left hps)))
  | select hv ht ihv iht =>
    refine .node (hexpr _ _ (.select hv ht) hps) ?_
    simpa [Expr.parts] using ⟨ihv (hC.left hps), iht (hC.behind hps)⟩
  | ternary hy ht hn ihy iht ihn =>
    refine .node (hexpr _ _ (.ternary hy ht hn) hps) ?_
    have hrest := hC.behind hps
    simpa [Expr.parts] using ⟨iht (hC.left hrest), ihy (hC.left hps), ihn (hC.behind hrest)⟩
  | entry hk hv ihk ihv => exact ⟨ihk (hC.left hps), ihv (hC.behind hps)⟩
  | positional he ih => exact ih hps
  | keyword hw he ihw ih => exact ih (hC.behind hps)
  | spread he ih => exact ih (hC.tail hps)
  | noItem => exact trivial
  | lastItem hx ih => exact ⟨ih hps, trivial⟩
  | item hx hxs ih ihs => exact ⟨ih (hC.left hps), ihs (hC.behind hps)⟩
  | noArgs => exact nofun
  | args h ih => exact Phrase.allHold_map.mp (ih (hC.between hps))
  | noPart => exact nofun
  | absentPart h ih =>
    have hrest := ih (hC.tail hps)
    exact fun e he => hrest e (by simpa using he)
  | lastPart he h ih ihs =>
    have hrest := ihs (hC.right hps)
    have hfirst := ih (hC.left hps)
    intro e' he'
    rcases List.mem_cons.mp he' with heq | he'
    · cases heq
      exact hfirst
    · exact hrest e' he'
  | part he h ih ihs =>
    have hrest := ihs (hC.behind hps)
    have hfirst := ih (hC.left hps)
    intro e' he'
    rcases List.mem_cons.mp he' with heq | he'
    · cases heq
      exact hfirst
    · exact hrest e' he'
  | comment w => exact fun inside => .node (hstmt _ _ _ (.comment w) hps) nofun nofun
  | text w => exact fun inside => .node (hstmt _ _ _ (.text w) hps) nofun nofun
  | control h => exact fun inside => .node (hstmt _ _ _ (.control h) hps) nofun nofun
  | output he ih =>
    refine fun inside => .node (hstmt _ _ _ (.output he) hps) ?_ nofun
    exact List.forall_mem_singleton.mpr (ih (hC.between hps))
  | assign ht hv iht ihv =>
    have hrest := hC.right hps
    refine fun inside => .node (hstmt _ _ _ (.assign ht hv) hps) ?_ nofun
    simpa [Stmt.exprs] using ⟨iht (hC.left hrest), ihv (hC.left (hC.behind hrest))⟩
  | capture ht hbody iht ihbody =>
    have hrest := hC.right hps
    refine fun inside => .node (hstmt _ _ _ (.capture ht hbody) hps) ?_ ?_
    · exact List.forall_mem_singleton.mpr (iht (hC.left hrest))
    · exact List.forall_mem_map.mpr (ihbody (hC.left (hC.behind hrest)) false)
  | ofChoice h ih => exact ih (hC.left (hC.right hps))
  | choice ht hbody halternate iht ihbody ihalternate =>
    have hrest := hC.behind hps
    refine fun inside => .node (hchoice _ _ _ _) ?_ ?_
    · exact List.forall_mem_singleton.mpr (iht (hC.left hps))
    · refine List.forall_mem_map.mpr fun s hs => ?_
      rcases List.mem_append.mp hs with hs | hs
      · exact ihbody (hC.left hrest) inside s hs
      · exact ihalternate (hC.right hrest) inside s hs
  | choiceElif ht hbody hs iht ihbody ihs =>
    have hrest := hC.behind hps
    refine fun inside => .node (hchoice _ _ _ _) ?_ ?_
    · exact List.forall_mem_singleton.mpr (iht (hC.left hps))
    · refine List.forall_mem_map.mpr fun s hs => ?_
      rcases List.mem_append.mp hs with hs | hs
      · exact ihbody (hC.left hrest) inside s hs
      · obtain rfl := List.mem_singleton.mp hs
        exact ihs (hC.right (hC.right hrest)) inside
  | loop he htarget hi hbody hdefault ihe ihi ihbody ihdefault =>
    have hhead := hC.right hps
    have hrest := hC.behind hhead
    have hblocks := hC.behind hrest
    refine fun inside => .node (hstmt _ _ _ (.loop he htarget hi hbody hdefault) hps) ?_ ?_
    · refine List.forall_mem_cons.mpr ⟨ihi (hC.left hrest), fun e' he' => ?_⟩
      exact (ihe (hC.left hhead)).part (Expr.parts_of_target? htarget ▸ he')
    · refine List.forall_mem_append.mpr ⟨?_, ?_⟩
      · exact List.forall_mem_map.mpr (ihbody (hC.left hblocks) true)
      · exact List.forall_mem_map.mpr (ihdefault (hC.left (hC.right hblocks)) inside)
  | defineMacro hw hparams hbody ihw ihparams ihbody =>
    have hhead := hC.right (hC.right hps)
    refine fun inside => .node (hstmt _ _ _ (.defineMacro hw hparams hbody) hps) ?_ ?_
    · exact List.forall_mem_map.mpr (ihparams (hC.left hhead))
    · exact List.forall_mem_map.mpr (ihbody (hC.left (hC.behind hhead)) false)
  | callBlock hparams hw has hbody ihparams ihw ihargs ihbody =>
    have hhead := hC.right hps
    have hrest := hC.right (hC.right hhead)
    refine fun inside => .node (hstmt _ _ _ (.callBlock hparams hw has hbody) hps) ?_ ?_
    · refine List.forall_mem_append.mpr ⟨?_, ?_⟩
      · exact List.forall_mem_map.mpr (ihargs (hC.left hrest))
      · exact List.forall_mem_map.mpr (ihparams (hC.left hhead))
    · exact List.forall_mem_map.mpr (ihbody (hC.left (hC.behind hrest)) false)
  | filterBlock hf hform hbody ihf ihbody =>
    have hrest := hC.right hps
    refine fun inside => .node (hstmt _ _ _ (.filterBlock hf hform hbody) hps) ?_ ?_
    · exact List.forall_mem_singleton.mpr (ihf (hC.left hrest))
    · exact List.forall_mem_map.mpr (ihbody (hC.left (hC.behind hrest)) false)
  | noStmt => exact fun _ => nofun
  | stmts hs hss ih ihs =>
    refine fun inside => List.forall_mem_cons.mpr ⟨?_, ?_⟩
    · exact ih (hC.left hps) inside
    · exact ihs (hC.right hps) inside
  | noElse => exact fun _ => nofun
  | otherwise h ih => exact ih (hC.tail (hC.right hps))

/-! ### Nodes and their tokens -/

namespace Chunk

theorem hereditary_forall_tokens (R : Token → Prop) :
    Hereditary fun ps => ∀ t ∈ flat ps, R t where
  left h t ht := h t (by simp only [flat, List.flatMap_append]; exact List.mem_append_left _ ht)
  right h t ht := h t (by simp only [flat, List.flatMap_append]; exact List.mem_append_right _ ht)

theorem mem_flat_between {o c : TokenKind} {wo wc : Word} {ps : List Chunk} {t : Token}
    {ho : o.isMark} {hc : c.isMark} (ht : t ∈ flat ps) : t ∈ flat (between wo wc ps ho hc) := by
  simp only [flat, between, List.flatMap_cons, List.flatMap_append]
  exact List.mem_append_right _ (List.mem_append_left _ ht)

end Chunk

open Chunk in
theorem Spelled.int_token {w : Word} {ps : List Chunk} (h : Spelled (.expr (.int w)) ps) :
    ⟨.number, w.text, w.pos⟩ ∈ flat ps ∧ '.' ∉ w.text.toList := by
  generalize hx : Phrase.expr (.int w) = x at h
  induction h with
  | int h =>
    cases hx
    exact ⟨List.mem_cons_self, h⟩
  | parens he ih => exact ⟨mem_flat_between (ih hx).1, (ih hx).2⟩
  | _ => cases hx

open Chunk in
theorem Spelled.float_token {w : Word} {ps : List Chunk} (h : Spelled (.expr (.float w)) ps) :
    ⟨.number, w.text, w.pos⟩ ∈ flat ps := by
  generalize hx : Phrase.expr (.float w) = x at h
  induction h with
  | float h =>
    cases hx
    exact List.mem_cons_self
  | parens he ih => exact mem_flat_between (ih hx)
  | _ => cases hx

theorem Spelled.filter_form {e f : Expr} {ps : List Chunk} (h : Spelled (.expr (.filter e f)) ps) :
    f.filterForm := by
  generalize hx : Phrase.expr (.filter e f) = x at h
  induction h with
  | filter he hf hform =>
    cases hx
    exact hform
  | parens he ih => exact ih hx
  | _ => cases hx

end ChatTemplate
