import ChatTemplate.Proofs.Heap.Interpreter

/-!
# Evaluation in a heap and in a store

The interpreter of heaps does what the evaluator does to the store that the heap looks like
(`Interpreter.within_mirrors`): by induction on the depth, with one lemma for each sort of
expressions and statements.
-/

namespace ChatTemplate.Heap
namespace Mirrors
variable {w : Bool} {m : Mark} {h : Heap} {x : Item} {v : Value} {xs : List Item} {vs : List Value}

/-! ### Binding -/

theorem bindAll (scope : Scope) (names : List String) (hxs : h.ShowsAll xs vs) :
    Follows w Same h (Heap.bindAll scope names xs) (Eval.bindAll scope names vs) := by
  have hzip : h.ShowsSlots (names.zip xs) (names.zip vs) := forall₂_zip names hxs
  unfold Heap.bindAll Eval.bindAll
  generalize names.zip xs = s at hzip ⊢
  generalize names.zip vs = t at hzip ⊢
  clear hxs
  induction s generalizing h t with
  | nil =>
    cases hzip
    exact .pure rfl
  | cons e s ih =>
    obtain ⟨⟨k, v⟩, t, ⟨hname, hx⟩, hrest, rfl⟩ := List.forall₂_cons_left_iff.mp hzip
    obtain ⟨k', x⟩ := e
    obtain rfl : k' = k := hname
    exact Follows.bind (bindName hx scope k') fun h' _ _ s _ => ih _ (ShowsSlots.mono hrest s)

theorem bindTo (scope : Scope) (b : Binder) (hx : h.Shows x v) :
    Follows w Same h (Heap.bindTo scope b x) (Eval.bindTo scope b v) := by
  refine .of_sound fun sound => ?_
  unfold Heap.bindTo Eval.bindTo
  cases b with
  | one name => exact bindName hx scope name
  | many names =>
    cases sound.shown hx with
    | array hvs =>
      refine itemsOf_bind ?_
      rw [hvs.length_eq]
      dsimp only
      split
      · exact .fail _
      · split
        · exact .fail _
        · exact bindAll scope names hvs
    | _ => exact .fail _

section
variable {run : Interpreter} {ev : Evaluator} (hrun : run.Mirrors ev)
include hrun

theorem block (scope : Scope) (before : Text) (ss : List Stmt) :
    Follows true Same h (Heap.block run scope before ss) (Eval.block ev scope before ss) := by
  induction ss generalizing h before with
  | nil => exact .pure rfl
  | cons s ss ih =>
    refine Follows.bind (hrun.stmt h s scope) ?_
    rintro h₁ flow _ s₁ rfl
    cases flow with
    | text t => exact ih _
    | signal signal t => exact .pure rfl

theorem closedBlock (scope : Scope) (body : List Stmt) :
    Follows true Same h (Heap.closedBlock run scope body) (Eval.closedBlock ev scope body) := by
  refine Follows.bind (block hrun scope "" body) ?_
  rintro h₁ flow _ s₁ rfl
  cases flow with
  | text t => exact .pure rfl
  | signal signal t => exact .fail _

/-! ### Calls -/

theorem bindParams (scope : Scope) {keywords : Slots String Item} {keywords' : Slots String Value}
    (hkeywords : h.ShowsSlots keywords keywords') (params : List Param) (hxs : h.ShowsAll xs vs) :
    Follows true Same h (Heap.bindParams run scope keywords params xs)
      (Eval.bindParams ev scope keywords' params vs) := by
  induction params generalizing h xs vs with
  | nil => exact .pure rfl
  | cons p params ih =>
    have htail : h.ShowsAll xs.tail vs.tail := by
      rw [← List.drop_one, ← List.drop_one]
      exact List.forall₂_drop 1 hxs
    have hbind (h₁ : Heap) (x : Item) (v : Value) (s₁ : h.Step (h.mark true) h₁)
        (hx : h₁.Shows x v) :
        Follows true Same h₁
          (do Heap.bind scope p.name x; Heap.bindParams run scope keywords params xs.tail)
          (do Eval.bind scope p.name v; Eval.bindParams ev scope keywords' params vs.tail) :=
      Follows.bind (bindName hx scope p.name) fun h₂ _ _ s₂ _ =>
        ih ((hkeywords.mono s₁).mono s₂) ((htail.mono s₁).mono s₂)
    unfold Heap.bindParams Eval.bindParams
    cases hxs with
    | cons hx hxs => exact Follows.bind (.pure hx) hbind
    | nil =>
      rcases optionRel_cases (hkeywords.lookup p.name) with ⟨hx, hv⟩ | ⟨x, v, hx, hv, hshows⟩
      · rw [hx, hv]
        cases p.default with
        | none => exact .fail_bind _
        | some e => exact (hrun.expr h e scope).bind hbind
      · rw [hx, hv]
        exact Follows.bind (.pure hshows) hbind

variable {c : Call} {a : Args}

theorem callMacro (name : String) (params : List Param) (body : List Stmt) (scope : Scope)
    (hc : h.ShowsCall c a) :
    Follows true Shows h (Heap.callMacro run name params body c scope)
      (Eval.callMacro ev name params body a scope) := by
  unfold Heap.callMacro Eval.callMacro
  refine Follows.bind (innerScope scope) ?_
  rintro h₁ inner _ s₁ rfl
  refine Follows.copy_bind (hc.mono s₁) fun h₂ c₂ s₂ hc₂ => listOf_bind (namedOf_bind ?_)
  rw [hc₂.list.length_eq, hc₂.named.names_eq]
  dsimp only
  split
  · exact .fail_bind _
  · have hbody : Follows true Shows h₂
        (do
          Heap.bindParams run inner (h₂.dict c₂.keywords).byString params (h₂.list c₂.positional)
          return .string (← Heap.closedBlock run inner body))
        (do
          Eval.bindParams ev inner a.keywords params a.positional
          return .string (← Eval.closedBlock ev inner body)) := by
      refine (bindParams hrun inner hc₂.named params hc₂.list).bind fun h₃ _ _ _ _ => ?_
      refine Follows.bind (closedBlock hrun inner body) ?_
      rintro h₄ t _ _ rfl
      exact .pure (.string t)
    cases a.keywords.names.find? fun k => !(params.map Param.name).contains k with
    | some k => exact .fail_bind _
    | none => exact hbody

theorem callCaller (params : List String) (body : List Stmt) (scope : Scope)
    (hc : h.ShowsCall c a) :
    Follows true Shows h (Heap.callCaller run params body scope c)
      (Eval.callCaller ev params body scope a) := by
  unfold Heap.callCaller Eval.callCaller
  refine Follows.bind (innerScope scope) ?_
  rintro h₁ inner _ s₁ rfl
  refine Follows.copy_bind (hc.mono s₁) fun h₂ c₂ s₂ hc₂ => listOf_bind ?_
  rw [hc₂.list.length_eq]
  have hall := List.rel_append hc₂.list (showsAll_undefined (params.length - a.positional.length))
  refine (bindAll inner params hall).bind fun h₃ _ _ _ _ => ?_
  refine Follows.bind (closedBlock hrun inner body) ?_
  rintro h₄ t _ _ rfl
  exact .pure (.string t)

theorem callFunction (host : Host) (f : Function) (scope : Scope) (hc : h.ShowsCall c a) :
    Follows true Shows h (Heap.callFunction run host f c scope)
      (Eval.callFunction ev host f a scope) := by
  cases f with
  | range => exact callRange hc
  | raiseException => exact callRaise hc
  | newNamespace => exact callNamespace hc
  | stringMethod s m => exact callStringMethod s m hc
  | objectMethod r m => exact callObjectMethod r m hc
  | defined name params body => exact callMacro hrun name params body scope hc
  | caller params body home => exact callCaller hrun params body home hc
  | host f => exact callHost host f hc

theorem callValue (host : Host) (scope : Scope) (hx : h.Shows x v) (hc : h.ShowsCall c a) :
    Follows true Shows h (Heap.callValue run host x c scope)
      (Eval.callValue ev host v a scope) := by
  refine .of_sound fun sound => ?_
  unfold Heap.callValue Eval.callValue
  cases sound.shown hx with
  | function r => exact get_both (callFunction hrun host _ scope hc)
  | _ => exact .fail _

/-! ### Expressions -/

theorem filterBy (host : Host) (scope : Scope) (hx : h.Shows x v) (f : Expr) :
    Follows true Shows h (Heap.filterBy run host scope x f) (Eval.filterBy host ev scope v f) := by
  unfold Heap.filterBy Eval.filterBy
  cases f with
  | name w =>
    refine new_bind (w := true) (.refl _) fun h₁ c s hc _ _ => ?_
    exact (applyFilter host scope w.text (Nat.le_refl 0) (hx.mono s) hc).weaken (s.mark_le id)
  | call callee as =>
    cases callee with
    | name w =>
      refine (args hrun scope as).bind fun h₁ c a s hc => listOf_bind ?_
      exact applyFilter host scope w.text (Nat.le_of_eq hc.list.length_eq.symm) (hx.mono s) hc
    | _ => exact .fail _
  | _ => exact .fail _

theorem entries (scope : Scope) {d : DictRef} {s : Slots Text Item} {t : Slots Text Value}
    (hle : m.Le ⟨h.lists.size, d, true⟩) (own : h.OwnsDict d s) (hs : h.ShowsSlots s t)
    (es : List (Expr × Expr)) :
    Mirrors m (fun h' _ t' => ∃ s', h'.OwnsDict d s' ∧ h'.ShowsSlots s' t') h
      (Heap.entries run scope d es) (Eval.entries ev scope t es) := by
  induction es generalizing h s t with
  | nil => exact .pure ⟨s, own, hs⟩
  | cons e es ih =>
    obtain ⟨k, e⟩ := e
    have hmark : m.Le (h.mark true) := hle.trans ⟨Nat.le_refl _, Nat.le_of_lt own.lt_size, id⟩
    refine Mirrors.bind (hrun.expr h k scope) hmark fun h₁ x v s₁ hx => .of_sound fun sound => ?_
    cases sound.shown hx with
    | string name =>
      have hmark₁ := hmark.trans (s₁.mark_le id)
      refine Mirrors.bind (hrun.expr h₁ e scope) hmark₁ fun h₂ y u s₂ hy => ?_
      have own₁ := own.mono s₁ own.lt_size
      have own₂ := own₁.mono s₂ own₁.lt_size
      have hle₂ : m.Le ⟨h₂.lists.size, d, true⟩ :=
        ⟨Nat.le_trans hmark₁.lists s₂.lists_size, hle.dicts, hle.assigns⟩
      refine put_bind own₂ ⟨hle₂.lists, hle₂.dicts, nofun⟩ fun h₃ s₃ own₃ => ?_
      refine ih ⟨Nat.le_trans hle₂.lists s₃.lists_size, hle.dicts, hle.assigns⟩ own₃ ?_
      exact (((hs.mono s₁).mono s₂).mono s₃).put name (hy.mono s₃)
    | _ => exact .fail _

theorem bound (scope : Scope) (e : Option Expr) :
    Follows true Same h (Heap.bound run scope e) (Eval.bound ev scope e) := by
  unfold Heap.bound Eval.bound
  cases e with
  | none => exact .pure rfl
  | some e =>
    exact (hrun.expr h e scope).bind fun h₁ x v _ hx =>
      valueOf_bind hx (look (Eval.Looks.sliceBound v))

theorem operation (scope : Scope) (left : Expr) (op : String) (right : Expr) :
    Follows true Shows h (Heap.operation run scope left op right)
      (Eval.operation ev scope left op right) := by
  refine (hrun.expr h left scope).bind fun h₁ x v s₁ hx => ?_
  split
  · refine Follows.bind (truthy hx) ?_
    rintro h₂ b _ s₂ rfl
    cases b with
    | true => exact hrun.expr h₂ right scope
    | false => exact .pure (hx.mono s₂)
  · split
    · refine Follows.bind (truthy hx) ?_
      rintro h₂ b _ s₂ rfl
      cases b with
      | true => exact .pure (hx.mono s₂)
      | false => exact hrun.expr h₂ right scope
    · exact (hrun.expr h₁ right scope).bind fun h₂ y v' s₂ hy => binary op (hx.mono s₂) hy

theorem exprInner (host : Host) (e : Expr) (scope : Scope) :
    Follows true Shows h (Heap.exprInner run host e scope) (Eval.exprInner host ev e scope) := by
  unfold Heap.exprInner Eval.exprInner
  have hitems (es : List Expr) : Follows true Shows h
      (do Heap.arrayOf (← es.mapM (run.expr · scope)))
      (do return .array (← es.mapM (ev.expr · scope))) := by
    have hall : List.Forall₂ (Same h) es es := List.forall₂_same.mpr fun _ _ => rfl
    refine Follows.bind (.mapM stable_same stable_shows ?_ hall) fun h₁ xs vs _ hxs => arrayOf hxs
    rintro h' e _ _ rfl
    exact hrun.expr h' e scope
  cases e with
  | name w => exact lookup scope w.text
  | int w =>
    dsimp only
    cases Number.readInt? (Text.toList w.text) with
    | some i => exact .pure (.int i)
    | none => exact .throw _
  | float w =>
    dsimp only
    cases Number.readFloat? (Text.toList w.text) with
    | some f => exact .pure (.float f)
    | none => exact .throw _
  | string w => exact .pure (.string _)
  | bool w => exact .pure (.bool _)
  | null w => exact .pure .null
  | array es => exact hitems es
  | tuple es => exact hitems es
  | object es =>
    refine newDict_bind (w := true) (.refl _) fun h₁ s₁ own₁ => ?_
    have hle : (h.mark true).Le ⟨h₁.lists.size, h.dicts.size, true⟩ :=
      ⟨s₁.lists_size, Nat.le_refl _, id⟩
    refine Mirrors.bind (entries hrun scope hle own₁ .nil es) (.refl _) fun h₂ _ t s₂ hs => ?_
    obtain ⟨s, own₂, hs⟩ := hs
    exact newObject own₂ hs (Nat.le_refl _)
  | binary l op r => exact operation hrun scope l op.text r
  | unary op e =>
    refine (hrun.expr h e scope).bind fun h₁ x v s₁ hx => ?_
    split
    · refine Follows.bind (truthy hx) ?_
      rintro h₂ b _ _ rfl
      exact .pure (.bool _)
    · exact .fail _
  | member e w =>
    exact (hrun.expr h e scope).bind fun h₁ x v s₁ hx => lookupMember hx (.string w.text)
  | index e k =>
    refine (hrun.expr h e scope).bind fun h₁ x v s₁ hx => ?_
    exact (hrun.expr h₁ k scope).bind fun h₂ y u s₂ hy => lookupMember (hx.mono s₂) hy
  | slice e a b c =>
    refine (hrun.expr h e scope).bind fun h₁ x v s₁ hx => ?_
    refine Follows.bind (bound hrun scope a) ?_
    rintro h₂ start _ s₂ rfl
    refine Follows.bind (bound hrun scope b) ?_
    rintro h₃ stop _ s₃ rfl
    refine Follows.bind (bound hrun scope c) ?_
    rintro h₄ step _ s₄ rfl
    exact slice (((hx.mono s₂).mono s₃).mono s₄) start stop step
  | call f as =>
    refine (args hrun scope as).bind fun h₁ c a s₁ hc => ?_
    exact (hrun.expr h₁ f scope).bind fun h₂ x v s₂ hx => callValue hrun host scope hx (hc.mono s₂)
  | filter e f => exact (hrun.expr h e scope).bind fun h₁ x v _ hx => filterBy hrun host scope hx f
  | test e negated w =>
    refine (hrun.expr h e scope).bind fun h₁ x v s₁ hx => ?_
    refine Follows.bind (look (.findTest scope w.text)) ?_
    rintro h₂ ⟨known, test⟩ _ s₂ rfl
    refine Follows.bind (runTest host known test (hx.mono s₂) .nil) ?_
    rintro h₃ b _ _ rfl
    exact .pure (.bool _)
  | select e t =>
    refine (hrun.expr h t scope).bind fun h₁ x v s₁ hx => Follows.bind (truthy hx) ?_
    rintro h₂ b _ _ rfl
    cases b with
    | true => exact hrun.expr h₂ e scope
    | false => exact .pure .undefined
  | ternary t y n =>
    refine (hrun.expr h t scope).bind fun h₁ x v s₁ hx => Follows.bind (truthy hx) ?_
    rintro h₂ b _ _ rfl
    cases b with
    | true => exact hrun.expr h₂ y scope
    | false => exact hrun.expr h₂ n scope

/-! ### Statements -/

omit hrun in
theorem output (hx : h.Shows x v) : Mirrors m Same h (Heap.output x) (Eval.output v) := by
  refine .of_sound fun sound => ?_
  have htext : Mirrors m Same h (do return Flow.text (← Heap.textOf x))
      (do return Flow.text (← Eval.textOf v)) := by
    refine Mirrors.bind (textOf hx) (.refl m) ?_
    rintro _ t _ _ rfl
    exact .pure rfl
  unfold Heap.output Eval.output
  cases sound.shown hx with
  | undefined => exact .pure rfl
  | null => exact .pure rfl
  | _ => exact htext

theorem assign (scope : Scope) (target : Expr) (hx : h.Shows x v) :
    Follows true Same h (Heap.assign run scope target x) (Eval.assign ev scope target v) := by
  unfold Heap.assign Eval.assign
  cases target.target? with
  | some t =>
    refine Follows.bind (look (Eval.Looks.binder t)) ?_
    rintro h₁ b _ s₁ rfl
    exact bindTo scope b (hx.mono s₁)
  | none =>
    cases target with
    | member e w =>
      refine (hrun.expr h e scope).bind fun h₁ y u s₁ hy => .of_sound fun sound => ?_
      cases sound.shown hy with
      | object r => exact putSlot (hx.mono s₁) r w.text
      | _ => exact .fail _
    | _ => exact .fail _

omit hrun in
theorem loopItems (hx : h.Shows x v) :
    Follows w (fun h l vs => ∃ xs, h.OwnsList l xs ∧ h.ShowsAll xs vs) h (Heap.loopItems x)
      (Eval.loopItems v) := by
  refine .of_sound fun sound => ?_
  unfold Heap.loopItems Eval.loopItems
  have hnew {xs : List Item} {vs : List Value} (hxs : h.ShowsAll xs vs) :
      Follows w (fun h l vs => ∃ xs, h.OwnsList l xs ∧ h.ShowsAll xs vs) h (Heap.newList xs)
        (Pure.pure vs) := by
    rw [← bind_pure (Heap.newList xs)]
    exact newList_bind (w := w) (.refl _) fun h₁ s own => .pure ⟨xs, own, hxs.mono s⟩
  cases sound.shown hx with
  | array hvs => exact itemsOf_bind (hnew hvs)
  | object r =>
    refine slotsOf_bind r fun hs => ?_
    rw [hs.names_eq]
    exact hnew (showsAll_strings _)
  | _ => exact .fail _

omit hrun in
theorem showsSlots_loopSlots (hxs : h.ShowsAll xs vs) (i : Nat) :
    h.ShowsSlots (Heap.loopSlots xs.toArray i) (Eval.loopSlots vs.toArray i) := by
  have hprevious : h.Shows (if i == 0 then .undefined else (xs[i - 1]?).getD .undefined)
      (if i == 0 then .undefined else (vs[i - 1]?).getD .undefined) := by
    split
    · exact .undefined
    · exact .getD (forall₂_getElem? hxs _) .undefined
  have hnext : h.Shows ((xs[i + 1]?).getD .undefined) ((vs[i + 1]?).getD .undefined) :=
    .getD (forall₂_getElem? hxs _) .undefined
  unfold Heap.loopSlots Eval.loopSlots
  simp only [List.size_toArray, List.getElem?_toArray, hxs.length_eq]
  refine .cons ⟨rfl, .int _⟩ <| .cons ⟨rfl, .int _⟩ <| .cons ⟨rfl, .int _⟩ <|
    .cons ⟨rfl, .int _⟩ <| .cons ⟨rfl, .bool _⟩ <| .cons ⟨rfl, .bool _⟩ <|
    .cons ⟨rfl, .int _⟩ <| .cons ⟨rfl, hprevious⟩ <| .cons ⟨rfl, hnext⟩ .nil

theorem passes (scope : Scope) (b : Binder) (test : Option Expr) (hx : h.Shows x v) :
    Follows true Same h (Heap.passes run scope b test x) (Eval.passes ev scope b test v) := by
  unfold Heap.passes Eval.passes
  cases test with
  | none => exact .pure rfl
  | some e =>
    refine Follows.bind (innerScope scope) ?_
    rintro h₁ inner _ s₁ rfl
    refine (bindTo inner b (hx.mono s₁)).bind fun h₂ _ _ s₂ _ => ?_
    exact (hrun.expr h₂ e inner).bind fun h₃ y u _ hy => truthy hy

theorem rounds (scope : Scope) (b : Binder) (body : List Stmt) {items : List Item}
    {items' : List Value} (hitems : h.ShowsAll items items') (i : Nat) (before : Text)
    (hxs : h.ShowsAll xs vs) :
    Follows true Same h (Heap.rounds run scope b body items.toArray i before xs)
      (Eval.rounds ev scope b body items'.toArray i before vs) := by
  induction xs generalizing h vs i before with
  | nil =>
    cases hxs
    exact .pure rfl
  | cons x xs ih =>
    obtain ⟨v, vs, hx, hrest, rfl⟩ := List.forall₂_cons_left_iff.mp hxs
    unfold Heap.rounds Eval.rounds
    refine (objectOf (showsSlots_loopSlots hitems i)).bind fun h₁ o o' s₁ ho => ?_
    refine (bindName ho scope "loop").bind fun h₂ _ _ s₂ _ => ?_
    refine (bindTo scope b ((hx.mono s₁).mono s₂)).bind fun h₃ _ _ s₃ _ => ?_
    refine Follows.bind (block hrun scope "" body) ?_
    rintro h₄ flow _ s₄ rfl
    have hitems₄ := (((hitems.mono s₁).mono s₂).mono s₃).mono s₄
    have hrest₄ := (((ShowsAll.mono hrest s₁).mono s₂).mono s₃).mono s₄
    match flow with
    | .text t => exact ih hitems₄ _ _ hrest₄
    | .signal .continue t => exact ih hitems₄ _ _ hrest₄
    | .signal .break t => exact .pure rfl

theorem loop (scope : Scope) (target : Target) (iterable : Expr) (body default : List Stmt) :
    Follows true Same h (Heap.loop run scope target iterable body default)
      (Eval.loop ev scope target iterable body default) := by
  unfold Heap.loop Eval.loop
  refine Follows.bind (innerScope scope) ?_
  rintro h₁ inner _ s₁ rfl
  obtain ⟨source, test⟩ := Eval.loopHeader iterable
  refine (hrun.expr h₁ source inner).bind fun h₂ x v s₂ hx => ?_
  refine (loopItems hx).bind fun h₃ candidates vs s₃ hcandidates => ?_
  obtain ⟨xs, own₃, hxs⟩ := hcandidates
  refine Follows.bind (look (Eval.Looks.binder target)) ?_
  rintro h₄ b _ s₄ rfl
  have own₄ := own₃.mono s₄ own₃.lt_size
  refine newList_bind (w := true) (.refl _) fun h₅ s₅ own₅ => listOf_bind ?_
  rw [(own₄.mono s₅ own₄.lt_size).list_eq]
  have hle : (h₄.mark true).Le ⟨h₄.lists.size, h₅.dicts.size, true⟩ :=
    ⟨Nat.le_refl _, s₅.dicts_size, id⟩
  refine collect_bind stable_shows hle (fun h' x v _ hx => passes hrun inner b test hx) own₅
    ((ShowsAll.mono hxs s₄).mono s₅) fun h₆ kept kept' s₆ own₆ hkept => listOf_bind ?_
  have hmark : (h₄.mark true).Le (h₆.mark true) := (s₅.trans s₆).mark_le id
  rw [own₆.list_eq, forall₂_isEmpty hkept]
  split
  · exact (block hrun inner "" default).weaken hmark
  · exact (rounds hrun inner b body hkept 0 "" hkept).weaken hmark

theorem callBlock (host : Host) (scope : Scope) (callee : Word) (as params : List Arg)
    (body : List Stmt) :
    Follows true Shows h (Heap.callBlock run host scope callee as params body)
      (Eval.callBlock host ev scope callee as params body) := by
  unfold Heap.callBlock Eval.callBlock
  refine Follows.bind (look (.mapM _ Eval.Looks.callerParam params)) ?_
  rintro h₁ names _ s₁ rfl
  refine (args hrun scope as).bind fun h₂ c a s₂ hc => ?_
  refine (hrun.expr h₂ (.name callee) scope).bind fun h₃ f v s₃ hf => ?_
  refine Follows.bind (innerScope scope) ?_
  rintro h₄ inner _ s₄ rfl
  refine (newFunction _).bind fun h₅ g u s₅ hg => ?_
  refine (bindName hg inner "caller").bind fun h₆ _ _ s₆ _ => ?_
  exact callValue hrun host inner (((hf.mono s₄).mono s₅).mono s₆)
    ((((hc.mono s₃).mono s₄).mono s₅).mono s₆)

theorem stmtInner (host : Host) (s : Stmt) (scope : Scope) :
    Follows true Same h (Heap.stmtInner run host s scope) (Eval.stmtInner host ev s scope) := by
  unfold Heap.stmtInner Eval.stmtInner
  cases s with
  | comment w => exact .pure rfl
  | text w => exact .pure rfl
  | output e => exact (hrun.expr h e scope).bind fun h₁ x v _ hx => output hx
  | choice test body alternate =>
    refine (hrun.expr h test scope).bind fun h₁ x v _ hx => Follows.bind (truthy hx) ?_
    rintro h₂ b _ _ rfl
    exact block hrun scope "" _
  | loop target iterable body default => exact loop hrun scope target iterable body default
  | assign target e =>
    refine (hrun.expr h e scope).bind fun h₁ x v _ hx => ?_
    exact (assign hrun scope target hx).bind fun _ _ _ _ _ => .pure rfl
  | capture target body =>
    refine Follows.bind (closedBlock hrun scope body) ?_
    rintro h₁ t _ _ rfl
    exact (assign hrun scope target (.string t)).bind fun _ _ _ _ _ => .pure rfl
  | defineMacro name params body =>
    refine Follows.bind (look (.mapM _ Eval.Looks.param params)) ?_
    rintro h₁ ps _ _ rfl
    refine (newFunction _).bind fun h₂ g u _ hg => ?_
    exact (bindName hg scope name.text).bind fun _ _ _ _ _ => .pure rfl
  | callBlock callee as params body =>
    refine (callBlock hrun host scope callee as _ body).bind fun h₁ x v _ hx => output hx
  | filterBlock f body =>
    refine Follows.bind (closedBlock hrun scope body) ?_
    rintro h₁ t _ _ rfl
    exact (filterBy hrun host scope (.string t) f).bind fun h₂ x v _ hx => output hx
  | control signal w => exact .pure rfl

end
end Mirrors

theorem Interpreter.within_mirrors (host : Host) (n : Nat) :
    (Interpreter.within host n).Mirrors (Evaluator.within host n) := by
  induction n with
  | zero => exact ⟨fun _ _ _ => .throw _, fun _ _ _ => .throw _⟩
  | succ n ih =>
    exact ⟨fun h e scope => .rethrow _ (Mirrors.exprInner ih host e scope),
      fun h s scope => .rethrow _ (Mirrors.stmtInner ih host s scope)⟩

end ChatTemplate.Heap
