import ChatTemplate.Eval.Stmt
import ChatTemplate.Proofs.Eval.FilterBlindness

/-!
# What an evaluation depends on

An evaluation depends on the names that occur in it, and on those in the macros and call blocks that
it may call: in stores that are alike in a view that covers these names, it has the same outcome
(`Evaluator.within_blind`). By induction on the depth, with one lemma for each step of an evaluation.
-/

namespace ChatTemplate
variable {u : View} {host : Host} {ev : Evaluator} {scope : Scope}

/-- In stores that are alike, expressions and statements that are covered by the view do the same. -/
structure Evaluator.Blind (u : View) (ev : Evaluator) : Prop where
  expr : ∀ {e s}, u.Covers e.names → u.Admits s →
    Eval.Matches u (Value.Alike u.toPairing) (ev.expr e s) (ev.expr e s)
  stmt : ∀ {x s}, u.Covers x.names → u.Admits s → Eval.Matches u Eq (ev.stmt x s) (ev.stmt x s)

namespace Eval.Matches
variable {v v' : Value} {vs vs' : List Value} {a b : Args}

/-! ### Binding -/

theorem expectName (place : String) (e : Expr) :
    Matches u Eq (Eval.expectName place e) (Eval.expectName place e) := by
  cases e with
  | name w => exact .pure rfl
  | _ => exact .fail _

/-- A loop whose rounds do not look at the store. -/
theorem mapM_same {α β : Type} {f : α → Eval β} (hf : ∀ a, Matches u Eq (f a) (f a))
    (as : List α) : Matches u Eq (as.mapM f) (as.mapM f) := by
  have hsame : List.Forall₂ Eq as as := List.forall₂_same.mpr fun _ _ => rfl
  have h : Matches u (List.Forall₂ Eq) (as.mapM f) (as.mapM f) := by
    refine mapM hsame ?_
    rintro a _ rfl
    exact hf a
  rwa [List.forall₂_eq_eq_eq] at h

theorem binder (t : Target) : Matches u Eq (Eval.binder t) (Eval.binder t) := by
  cases t with
  | name w => exact .pure rfl
  | tuple items =>
    refine (mapM_same (expectName _) items).bind ?_
    rintro names _ rfl
    exact .pure rfl

theorem bindAll (s : Scope) (names : List String)
    (hvs : List.Forall₂ (Value.Alike u.toPairing) vs vs') :
    Matches u Eq (Eval.bindAll s names vs) (Eval.bindAll s names vs') := by
  refine forM (forall₂_zip names hvs) ?_
  rintro ⟨name, v⟩ ⟨name', v'⟩ ⟨rfl, hv⟩
  exact bindName s name hv

theorem bindTo (s : Scope) (b : Binder) (hv : v.Alike u.toPairing v') :
    Matches u Eq (Eval.bindTo s b v) (Eval.bindTo s b v') := by
  unfold Eval.bindTo
  cases b with
  | one name => exact bindName s name hv
  | many names =>
    cases hv with
    | array hvs =>
      dsimp only
      rw [hvs.length_eq]
      split
      · exact .fail _
      split
      · exact .fail _
      · exact bindAll s names hvs
    | _ => exact .fail _

/-! ### Arguments and blocks -/

section
variable (hev : ev.Blind u) (hs : u.Admits scope)
include hev hs

theorem args {as : List Arg} (hnames : u.Covers (Arg.namesOfList as)) {given given' : Args}
    (h : given.Alike u.toPairing given') :
    Matches u (Args.Alike u.toPairing) (Eval.args ev scope as given)
      (Eval.args ev scope as given') := by
  induction as generalizing given given' with
  | nil => exact .pure h
  | cons a as ih =>
    simp only [Arg.namesOfList, View.covers_append] at hnames
    obtain ⟨ha, has⟩ := hnames
    cases a with
    | positional e =>
      unfold Eval.args
      exact (hev.expr ha hs).bind fun v v' hv =>
        ih has ⟨List.rel_append h.positional (.cons hv .nil), h.keywords⟩
    | keyword w e =>
      unfold Eval.args
      exact (hev.expr ha hs).bind fun v v' hv => ih has ⟨h.positional, h.keywords.put w.text hv⟩
    | spread e =>
      unfold Eval.args
      refine (hev.expr ha hs).bind fun v v' hv => ?_
      cases hv with
      | array hvs => exact ih has ⟨List.rel_append h.positional hvs, h.keywords⟩
      | _ => exact .fail _

theorem block (before : Text) {body : List Stmt} (hnames : u.Covers (Stmt.namesOfList body)) :
    Matches u Eq (Eval.block ev scope before body) (Eval.block ev scope before body) := by
  induction body generalizing before with
  | nil => exact .pure rfl
  | cons s ss ih =>
    simp only [Stmt.namesOfList, View.covers_append] at hnames
    unfold Eval.block
    refine (hev.stmt hnames.1 hs).bind ?_
    rintro flow _ rfl
    cases flow with
    | text t => exact ih _ hnames.2
    | signal signal t => exact .pure rfl

theorem closedBlock {body : List Stmt} (hnames : u.Covers (Stmt.namesOfList body)) :
    Matches u Eq (Eval.closedBlock ev scope body) (Eval.closedBlock ev scope body) := by
  unfold Eval.closedBlock
  refine (block hev hs _ hnames).bind ?_
  rintro flow _ rfl
  cases flow with
  | text t => exact .pure rfl
  | signal signal t => exact .fail _

end

/-! ### Calls -/

theorem bindParams (hev : ev.Blind u) (hs : u.Admits scope) {keywords keywords' : Slots String Value}
    (hkeywords : Slots.Related (Value.Alike u.toPairing) keywords keywords') {params : List Param}
    (hnames : u.Covers (params.flatMap fun q => Expr.namesOfOption q.default))
    (hvs : List.Forall₂ (Value.Alike u.toPairing) vs vs') :
    Matches u Eq (Eval.bindParams ev scope keywords params vs)
      (Eval.bindParams ev scope keywords' params vs') := by
  induction params generalizing vs vs' with
  | nil => exact .pure rfl
  | cons q params ih =>
    simp only [List.flatMap_cons, View.covers_append] at hnames
    have htail : List.Forall₂ (Value.Alike u.toPairing) vs.tail vs'.tail := by
      rw [← List.drop_one, ← List.drop_one]
      exact List.forall₂_drop 1 hvs
    have hbind : ∀ w w' : Value, w.Alike u.toPairing w' →
        Matches u Eq
          (do Eval.bind scope q.name w; Eval.bindParams ev scope keywords params vs.tail)
          (do Eval.bind scope q.name w'; Eval.bindParams ev scope keywords' params vs'.tail) :=
      fun w w' hw => (bindName scope q.name hw).bind fun _ _ _ => ih hnames.2 htail
    unfold Eval.bindParams
    cases hvs with
    | cons hv hvs => exact (pure hv).bind hbind
    | nil =>
      rcases optionRel_cases (hkeywords.lookup q.name) with ⟨hx, hy⟩ | ⟨w, w', hx, hy, hw⟩
      · rw [hx, hy]
        cases hdefault : q.default with
        | none => exact fail_bind _
        | some e =>
          rw [hdefault] at hnames
          exact (hev.expr hnames.1 hs).bind hbind
      · rw [hx, hy]
        exact (pure hw).bind hbind

theorem callMacro (hev : ev.Blind u) (hs : u.Admits scope) (name : String) {params : List Param}
    {body : List Stmt} (hnames : u.Covers (Function.defined name params body).names)
    (h : a.Alike u.toPairing b) :
    Matches u (Value.Alike u.toPairing) (Eval.callMacro ev name params body a scope)
      (Eval.callMacro ev name params body b scope) := by
  simp only [Function.names, View.covers_append] at hnames
  unfold Eval.callMacro
  refine (innerScope hs.chain).bind ?_
  rintro inner _ ⟨rfl, hinner⟩
  simp only [h.positional.length_eq, h.keywords.names_eq]
  split
  · exact fail_bind _
  have hrun : Matches u (Value.Alike u.toPairing)
      (do
        Eval.bindParams ev inner a.keywords params a.positional
        return .string (← Eval.closedBlock ev inner body))
      (do
        Eval.bindParams ev inner b.keywords params b.positional
        return .string (← Eval.closedBlock ev inner body)) := by
    refine (bindParams hev hinner h.keywords hnames.1 h.positional).bind fun _ _ _ => ?_
    refine (closedBlock hev hinner hnames.2).bind ?_
    rintro t _ rfl
    exact .pure (.string t)
  split
  · exact fail_bind _
  · exact hrun

theorem callCaller (hev : ev.Blind u) (params : List String) {body : List Stmt} {home : Scope}
    (hnames : u.Covers (Function.caller params body home).names)
    (hhome : ∀ r ∈ home.chain, u.Sees r) (h : a.Alike u.toPairing b) :
    Matches u (Value.Alike u.toPairing) (Eval.callCaller ev params body home a)
      (Eval.callCaller ev params body home b) := by
  unfold Eval.callCaller
  refine (innerScope hhome).bind ?_
  rintro inner _ ⟨rfl, hinner⟩
  simp only [h.positional.length_eq]
  have hmissing : List.Forall₂ (Value.Alike u.toPairing)
      (List.replicate (params.length - b.positional.length) Value.undefined)
      (List.replicate (params.length - b.positional.length) Value.undefined) :=
    List.forall₂_same.mpr fun v hv => (List.eq_of_mem_replicate hv) ▸ .undefined
  refine (bindAll inner params (List.rel_append h.positional hmissing)).bind fun _ _ _ => ?_
  refine (closedBlock hev hinner hnames).bind ?_
  rintro t _ rfl
  exact .pure (.string t)

theorem callFunction (hhost : host.Blind u.toPairing) (hev : ev.Blind u) (hs : u.Admits scope)
    {f g : Function} (hfg : f.Alike u g) (h : a.Alike u.toPairing b) :
    Matches u (Value.Alike u.toPairing) (Eval.callFunction ev host f a scope)
      (Eval.callFunction ev host g b scope) := by
  cases hfg with
  | range => exact callRange h
  | raiseException => exact callRaise h
  | newNamespace => exact callNamespace h
  | stringMethod s m => exact callStringMethod s m h
  | objectMethod hrs m => exact callObjectMethod hrs m h
  | defined name params body hnames => exact callMacro hev hs name hnames h
  | caller params body home hnames hhome => exact callCaller hev params hnames hhome h
  | host f => exact callHost hhost f h

theorem callValue (hhost : host.Blind u.toPairing) (hev : ev.Blind u) (hs : u.Admits scope)
    (hv : v.Alike u.toPairing v') (h : a.Alike u.toPairing b) :
    Matches u (Value.Alike u.toPairing) (Eval.callValue ev host v a scope)
      (Eval.callValue ev host v' b scope) := by
  cases hv with
  | function hrs =>
    exact get.bind fun st st' hst => callFunction hhost hev hs (hst.functions _ _ hrs) h
  | _ => exact .fail _

/-! ### Expressions -/

section Expressions
variable (hhost : host.Blind u.toPairing) (hev : ev.Blind u) (hs : u.Admits scope)
include hev hs

theorem filterBy {f : Expr} (hnames : u.Covers f.names) (hv : v.Alike u.toPairing v') :
    Matches u (Value.Alike u.toPairing) (Eval.filterBy host ev scope v f)
      (Eval.filterBy host ev scope v' f) := by
  unfold Eval.filterBy
  cases f with
  | name w => exact applyFilter host hs .nil w.text .nil hv
  | call callee as =>
    cases callee with
    | name w =>
      simp only [Expr.names, View.covers_append] at hnames
      refine (args hev hs hnames.2 .none).bind fun a b h => ?_
      exact applyFilter host hs h.keywords w.text h.positional hv
    | _ => exact .fail _
  | _ => exact .fail _

theorem entries {es : List (Expr × Expr)} (hnames : u.Covers (Expr.namesOfEntries es))
    {s t : Slots Text Value} (hst : Slots.Related (Value.Alike u.toPairing) s t) :
    Matches u (Slots.Related (Value.Alike u.toPairing)) (Eval.entries ev scope s es)
      (Eval.entries ev scope t es) := by
  induction es generalizing s t with
  | nil => exact .pure hst
  | cons e es ih =>
    obtain ⟨k, e⟩ := e
    simp only [Expr.namesOfEntries, Expr.namesOfEntry, View.covers_append] at hnames
    unfold Eval.entries
    refine (hev.expr hnames.1.1 hs).bind fun v v' hv => ?_
    cases hv with
    | string name =>
      exact (hev.expr hnames.1.2 hs).bind fun w w' hw => ih hnames.2 (hst.put name hw)
    | _ => exact .fail _

theorem bound {e : Option Expr} (hnames : u.Covers (Expr.namesOfOption e)) :
    Matches u Eq (Eval.bound ev scope e) (Eval.bound ev scope e) := by
  cases e with
  | none => exact .pure rfl
  | some e => exact (hev.expr hnames hs).bind fun v v' hv => sliceBound hv

theorem operation {left right : Expr} (op : String) (hleft : u.Covers left.names)
    (hright : u.Covers right.names) :
    Matches u (Value.Alike u.toPairing) (Eval.operation ev scope left op right)
      (Eval.operation ev scope left op right) := by
  unfold Eval.operation
  refine (hev.expr hleft hs).bind fun v v' hv => ?_
  split
  · refine (truthy hv).bind ?_
    rintro c _ rfl
    split
    · exact hev.expr hright hs
    · exact .pure hv
  split
  · refine (truthy hv).bind ?_
    rintro c _ rfl
    split
    · exact .pure hv
    · exact hev.expr hright hs
  · exact (hev.expr hright hs).bind fun w w' hw => binary op hv hw

theorem items {es : List Expr} (hnames : u.Covers (Expr.namesOfList es)) :
    Matches u (List.Forall₂ (Value.Alike u.toPairing)) (es.mapM (ev.expr · scope))
      (es.mapM (ev.expr · scope)) := by
  induction es with
  | nil => rw [List.mapM_nil]; exact .pure .nil
  | cons e es ih =>
    simp only [Expr.namesOfList, View.covers_append] at hnames
    rw [List.mapM_cons]
    exact (hev.expr hnames.1 hs).bind fun v v' hv =>
      (ih hnames.2).bind fun _ _ hvs => .pure (.cons hv hvs)

include hhost

theorem exprInner {e : Expr} (hnames : u.Covers e.names) :
    Matches u (Value.Alike u.toPairing) (Eval.exprInner host ev e scope)
      (Eval.exprInner host ev e scope) := by
  unfold Eval.exprInner
  cases e with
  | name w => exact lookup hs (hnames w.text List.mem_cons_self)
  | int w =>
    dsimp only
    split
    · exact .pure (.int _)
    · exact .escape _
  | float w =>
    dsimp only
    split
    · exact .pure (.float _)
    · exact .escape _
  | string w => exact .pure (.string _)
  | bool w => exact .pure (.bool _)
  | null w => exact .pure .null
  | array es => exact (items hev hs hnames).bind fun _ _ hvs => .pure (.array hvs)
  | tuple es => exact (items hev hs hnames).bind fun _ _ hvs => .pure (.array hvs)
  | object es => exact (entries hev hs hnames .nil).bind fun _ _ hslots => newObject hslots
  | binary l op r =>
    simp only [Expr.names, View.covers_append] at hnames
    exact operation hev hs op.text hnames.1 hnames.2
  | unary op e =>
    refine (hev.expr (e := e) hnames hs).bind fun v v' hv => ?_
    split
    · refine (truthy hv).bind ?_
      rintro c _ rfl
      exact .pure (.bool _)
    · exact .fail _
  | member e w =>
    exact (hev.expr (e := e) hnames hs).bind fun v v' hv => lookupMember hv (.string _)
  | index e k =>
    simp only [Expr.names, View.covers_append] at hnames
    exact (hev.expr hnames.1 hs).bind fun v v' hv =>
      (hev.expr hnames.2 hs).bind fun w w' hw => lookupMember hv hw
  | slice e a b c =>
    simp only [Expr.names, View.covers_append] at hnames
    obtain ⟨he, ha, hb, hc⟩ := hnames
    refine (hev.expr he hs).bind fun v v' hv => ?_
    refine (bound hev hs ha).bind ?_
    rintro start _ rfl
    refine (bound hev hs hb).bind ?_
    rintro stop _ rfl
    refine (bound hev hs hc).bind ?_
    rintro step _ rfl
    exact slice hv start stop step
  | call f as =>
    simp only [Expr.names, View.covers_append] at hnames
    refine (args hev hs hnames.2 .none).bind fun a b h => ?_
    exact (hev.expr hnames.1 hs).bind fun v v' hv => callValue hhost hev hs hv h
  | filter e f =>
    simp only [Expr.names, View.covers_append] at hnames
    exact (hev.expr hnames.1 hs).bind fun v v' hv => filterBy hev hs hnames.2 hv
  | test e negated w =>
    refine (hev.expr (e := e) hnames hs).bind fun v v' hv => (findTest hs w.text).bind ?_
    rintro ⟨known, _⟩ _ ⟨rfl, test, rfl⟩
    refine (runTest host known test hv .nil).bind ?_
    rintro c _ rfl
    exact .pure (.bool _)
  | select e t =>
    simp only [Expr.names, View.covers_append] at hnames
    refine (hev.expr hnames.2 hs).bind fun v v' hv => (truthy hv).bind ?_
    rintro c _ rfl
    split
    · exact hev.expr hnames.1 hs
    · exact .pure .undefined
  | ternary t y n =>
    simp only [Expr.names, View.covers_append] at hnames
    refine (hev.expr hnames.1 hs).bind fun v v' hv => (truthy hv).bind ?_
    rintro c _ rfl
    split
    · exact hev.expr hnames.2.1 hs
    · exact hev.expr hnames.2.2 hs

theorem expr {e : Expr} (hnames : u.Covers e.names) :
    Matches u (Value.Alike u.toPairing) (Eval.expr host ev e scope)
      (Eval.expr host ev e scope) :=
  (exprInner hhost hev hs hnames).rethrow _

end Expressions

/-! ### Statements -/

theorem output (hv : v.Alike u.toPairing v') :
    Matches u Eq (Eval.output v) (Eval.output v') := by
  have htext : Matches u Eq (do return Flow.text (← Eval.textOf v))
      (do return Flow.text (← Eval.textOf v')) := by
    refine (textOf hv).bind ?_
    rintro t _ rfl
    exact .pure rfl
  cases hv with
  | undefined => exact .pure rfl
  | null => exact .pure rfl
  | _ => exact htext

theorem loopItems (hv : v.Alike u.toPairing v') :
    Matches u (List.Forall₂ (Value.Alike u.toPairing)) (Eval.loopItems v)
      (Eval.loopItems v') := by
  unfold Eval.loopItems
  cases hv with
  | array hvs => exact .pure hvs
  | object hrs =>
    refine (slotsOf hrs).bind fun _ _ hslots => ?_
    rw [hslots.names_eq]
    exact .pure (Value.Alike.strings _)
  | _ => exact .fail _

theorem loopSlots_alike (hvs : List.Forall₂ (Value.Alike u.toPairing) vs vs') (i : Nat) :
    Slots.Related (Value.Alike u.toPairing) (Eval.loopSlots vs.toArray i)
      (Eval.loopSlots vs'.toArray i) := by
  have hprevious : Value.Alike u.toPairing
      (if i == 0 then .undefined else (vs[i - 1]?).getD .undefined)
      (if i == 0 then .undefined else (vs'[i - 1]?).getD .undefined) := by
    split
    · exact .undefined
    · exact .getD (forall₂_getElem? hvs _) .undefined
  have hnext : Value.Alike u.toPairing ((vs[i + 1]?).getD .undefined)
      ((vs'[i + 1]?).getD .undefined) :=
    .getD (forall₂_getElem? hvs _) .undefined
  unfold Eval.loopSlots
  simp only [List.size_toArray, List.getElem?_toArray, hvs.length_eq]
  refine .cons ⟨rfl, .int _⟩ <| .cons ⟨rfl, .int _⟩ <| .cons ⟨rfl, .int _⟩ <|
    .cons ⟨rfl, .int _⟩ <| .cons ⟨rfl, .bool _⟩ <| .cons ⟨rfl, .bool _⟩ <|
    .cons ⟨rfl, .int _⟩ <| .cons ⟨rfl, hprevious⟩ <| .cons ⟨rfl, hnext⟩ .nil

theorem param {q : Arg} (hnames : u.Covers q.names) :
    Matches u (fun r r' => r = r' ∧ u.Covers (Expr.namesOfOption r.default)) (Eval.param q)
      (Eval.param q) := by
  cases q with
  | positional e =>
    cases e with
    | name w => exact .pure ⟨rfl, View.covers_nil⟩
    | _ => exact .fail _
  | keyword w e => exact .pure ⟨rfl, hnames⟩
  | spread e => exact .fail _

theorem params {qs : List Arg} (hnames : u.Covers (Arg.namesOfList qs)) :
    Matches u
      (fun rs rs' => rs = rs' ∧ u.Covers (rs.flatMap fun r => Expr.namesOfOption r.default))
      (qs.mapM Eval.param) (qs.mapM Eval.param) := by
  induction qs with
  | nil => rw [List.mapM_nil]; exact .pure ⟨rfl, View.covers_nil⟩
  | cons q qs ih =>
    simp only [Arg.namesOfList, View.covers_append] at hnames
    rw [List.mapM_cons]
    refine (param hnames.1).bind ?_
    rintro r _ ⟨rfl, hr⟩
    refine (ih hnames.2).bind ?_
    rintro rs _ ⟨rfl, hrs⟩
    exact .pure ⟨rfl, View.covers_append.mpr ⟨hr, hrs⟩⟩

theorem callerParam (q : Arg) : Matches u Eq (Eval.callerParam q) (Eval.callerParam q) := by
  cases q with
  | positional e => exact expectName _ e
  | keyword w e => exact .fail _
  | spread e => exact .fail _

section Statements
variable (hhost : host.Blind u.toPairing) (hev : ev.Blind u) (hs : u.Admits scope)
include hev hs

theorem assign {target : Expr} (hnames : u.Covers target.names) (hv : v.Alike u.toPairing v') :
    Matches u Eq (Eval.assign ev scope target v) (Eval.assign ev scope target v') := by
  unfold Eval.assign
  cases target.target? with
  | some t =>
    refine (binder t).bind ?_
    rintro b _ rfl
    exact bindTo scope b hv
  | none =>
    cases target with
    | member e w =>
      refine (hev.expr (e := e) hnames hs).bind fun o o' ho => ?_
      cases ho with
      | object hrs => exact putSlot hrs _ hv
      | _ => exact .fail _
    | _ => exact .fail _

theorem passes (b : Binder) {test : Option Expr} (hnames : u.Covers (Expr.namesOfOption test))
    (hv : v.Alike u.toPairing v') :
    Matches u Eq (Eval.passes ev scope b test v) (Eval.passes ev scope b test v') := by
  cases test with
  | none => exact .pure rfl
  | some e =>
    refine (innerScope hs.chain).bind ?_
    rintro inner _ ⟨rfl, hinner⟩
    exact (bindTo inner b hv).bind fun _ _ _ =>
      (hev.expr (e := e) hnames hinner).bind fun w w' hw => truthy hw

theorem rounds (b : Binder) {body : List Stmt} (hnames : u.Covers (Stmt.namesOfList body))
    {items items' : List Value} (hitems : List.Forall₂ (Value.Alike u.toPairing) items items')
    (i : Nat) (before : Text) (hvs : List.Forall₂ (Value.Alike u.toPairing) vs vs') :
    Matches u Eq (Eval.rounds ev scope b body items.toArray i before vs)
      (Eval.rounds ev scope b body items'.toArray i before vs') := by
  induction hvs generalizing i before with
  | nil => exact .pure rfl
  | cons hv _ ih =>
    unfold Eval.rounds
    refine (newObject (loopSlots_alike hitems i)).bind fun o o' ho => ?_
    refine (bindName scope "loop" ho).bind fun _ _ _ => (bindTo scope b hv).bind fun _ _ _ => ?_
    refine (block hev hs _ hnames).bind ?_
    rintro flow _ rfl
    match flow with
    | .text t => exact ih _ _
    | .signal .continue t => exact ih _ _
    | .signal .break t => exact .pure rfl

theorem loop (target : Target) {iterable : Expr} {body default : List Stmt}
    (hiterable : u.Covers iterable.names) (hbody : u.Covers (Stmt.namesOfList body))
    (hdefault : u.Covers (Stmt.namesOfList default)) :
    Matches u Eq (Eval.loop ev scope target iterable body default)
      (Eval.loop ev scope target iterable body default) := by
  have hheader : u.Covers (loopHeader iterable).1.names ∧
      u.Covers (Expr.namesOfOption (loopHeader iterable).2) := by
    cases iterable with
    | select e t => exact View.covers_append.mp hiterable
    | _ => exact ⟨hiterable, View.covers_nil⟩
  unfold Eval.loop
  refine (innerScope hs.chain).bind ?_
  rintro inner _ ⟨rfl, hinner⟩
  refine (hev.expr hheader.1 hinner).bind fun v v' hv => (loopItems hv).bind fun vs vs' hvs => ?_
  refine (binder target).bind ?_
  rintro b _ rfl
  refine (filterM hvs fun w w' hw => passes hev hinner b hheader.2 hw).bind ?_
  intro items items' hitems
  rw [forall₂_isEmpty hitems]
  split
  · exact block hev hinner _ hdefault
  · exact rounds hev hinner b hbody hitems 0 _ hitems

include hhost

theorem callBlock (callee : Word) {as params : List Arg} {body : List Stmt}
    (hcallee : callee.text ∈ u.names) (has : u.Covers (Arg.namesOfList as))
    (hbody : u.Covers (Stmt.namesOfList body)) :
    Matches u (Value.Alike u.toPairing) (Eval.callBlock host ev scope callee as params body)
      (Eval.callBlock host ev scope callee as params body) := by
  unfold Eval.callBlock
  refine (mapM_same callerParam params).bind ?_
  rintro names _ rfl
  refine (args hev hs has .none).bind fun a b h => ?_
  have hname : u.Covers (Expr.name callee).names := View.covers_cons.mpr ⟨hcallee, View.covers_nil⟩
  refine (hev.expr hname hs).bind fun f f' hf => (innerScope hs.chain).bind ?_
  rintro inner _ ⟨rfl, hinner⟩
  refine (newFunction (.caller names body scope hbody hs.chain)).bind fun c c' hc => ?_
  exact (bindName inner "caller" hc).bind fun _ _ _ => callValue hhost hev hinner hf h

theorem stmtInner {x : Stmt} (hnames : u.Covers x.names) :
    Matches u Eq (Eval.stmtInner host ev x scope) (Eval.stmtInner host ev x scope) := by
  unfold Eval.stmtInner
  cases x with
  | comment w => exact .pure rfl
  | text w => exact .pure rfl
  | output e => exact (hev.expr (e := e) hnames hs).bind fun v v' hv => output hv
  | choice t body alternate =>
    simp only [Stmt.names, View.covers_append] at hnames
    refine (hev.expr hnames.1 hs).bind fun v v' hv => (truthy hv).bind ?_
    rintro c _ rfl
    cases c with
    | false => exact block hev hs _ hnames.2.2
    | true => exact block hev hs _ hnames.2.1
  | loop target iterable body default =>
    simp only [Stmt.names, View.covers_append] at hnames
    exact loop hev hs target hnames.2.1 hnames.2.2.1 hnames.2.2.2
  | assign target e =>
    simp only [Stmt.names, View.covers_append] at hnames
    exact (hev.expr hnames.2 hs).bind fun v v' hv => (assign hev hs hnames.1 hv).bind
      fun _ _ _ => .pure rfl
  | capture target body =>
    simp only [Stmt.names, View.covers_append] at hnames
    refine (closedBlock hev hs hnames.2).bind ?_
    rintro t _ rfl
    exact (assign hev hs hnames.1 (.string t)).bind fun _ _ _ => .pure rfl
  | defineMacro name qs body =>
    simp only [Stmt.names, View.covers_append] at hnames
    refine (params hnames.1).bind ?_
    rintro ps _ ⟨rfl, hps⟩
    have hmacro : u.Covers (Function.defined name.text ps body).names :=
      View.covers_append.mpr ⟨hps, hnames.2⟩
    exact (newFunction (.defined name.text ps body hmacro)).bind fun f f' hf =>
      (bindName scope name.text hf).bind fun _ _ _ => .pure rfl
  | callBlock callee as params body =>
    simp only [Stmt.names, View.covers_cons, View.covers_append] at hnames
    exact (callBlock hhost hev hs callee hnames.1 hnames.2.1 hnames.2.2.2).bind
      fun v v' hv => output hv
  | filterBlock f body =>
    simp only [Stmt.names, View.covers_append] at hnames
    refine (closedBlock hev hs hnames.2).bind ?_
    rintro t _ rfl
    exact (filterBy hev hs hnames.1 (.string t)).bind fun v v' hv => output hv
  | control signal w => exact .pure rfl

theorem stmt {x : Stmt} (hnames : u.Covers x.names) :
    Matches u Eq (Eval.stmt host ev x scope) (Eval.stmt host ev x scope) :=
  (stmtInner hhost hev hs hnames).rethrow _

end Statements

end Eval.Matches

/-- However deep an evaluation may nest, it depends on what the view covers only. -/
theorem Evaluator.within_blind (hhost : host.Blind u.toPairing) (depth : Nat) :
    (Evaluator.within host depth).Blind u := by
  induction depth with
  | zero => exact ⟨fun _ _ => .throw _, fun _ _ => .throw _⟩
  | succ depth ih =>
    exact ⟨fun hnames hs => .expr hhost ih hs hnames, fun hnames hs => .stmt hhost ih hs hnames⟩

end ChatTemplate
