import ChatTemplate.Proofs.Eval.Logic

/-!
# Logics of evaluations that change the store

An `Eval.StoreLogic` is a logic that goes through the single steps, too, that add to the store or
change it: new objects, functions and scopes, names that are bound and tests that are found. With
these it holds of members, of all filters, of the functions and of what the host takes and gives.
-/

namespace ChatTemplate

namespace Eval
variable {β : Type}

/-- The built-in test of a name. -/
def builtinTest? (name : Text) : Option (String × Test) :=
  name.toString?.bind fun known => ((BuiltinTest.ofName? known).map .builtin).map (known, ·)

theorem builtin_of_builtinTest? {name : Text} {found : String × Test}
    (h : builtinTest? name = some found) : ∃ test, found.2 = .builtin test := by
  simp only [builtinTest?, Option.bind_eq_some_iff, Option.map_eq_some_iff] at h
  obtain ⟨known, -, _, ⟨test, -, rfl⟩, rfl⟩ := h
  exact ⟨test, rfl⟩

/-- A scope whose frame has no tests of its own knows the built-in ones. -/
theorem findTest_bind {st : Store} {scope : Scope} (h : (st.frame scope.inner).tests = [])
    (name : Text) (f : String × Test → Eval β) :
    (findTest scope name >>= f).run.run st =
      ((builtinTest? name).elim (fail (.unknownTest name)) f).run.run st := by
  have htest (known : String) : st.test? scope known =
      (BuiltinTest.ofName? known).map .builtin := by rw [Store.test?, h]; rfl
  have hsame : (name.toString?.bind fun known => (st.test? scope known).map (known, ·)) =
      builtinTest? name := by simp only [htest, builtinTest?]
  have hget : (get : Eval Store).run.run st = (Pure.pure (.ok st, st) : Id _) := rfl
  simp only [findTest, ExceptT.run_bind, StateT.run_bind, hget, pure_bind, hsame]
  cases builtinTest? name <;> rfl

end Eval

/-- A logic that the steps have, too, that make objects, functions and scopes, bind names and find
tests. Where a scope is opened the world is a later one. The members of a family need not run in the
same scope: a place of the logic has a scope for each of them. -/
structure Eval.StoreLogic (host : Host) (ι : Type) extends Eval.Logic host ι where
  Later : World → World → Prop
  Place : Type
  scopeOf : Place → ι → Scope
  /-- The places inside which a scope is opened. -/
  Sees : World → Place → Prop
  /-- The places at which tests are found. -/
  Finds : World → Place → Prop
  /-- The places at which names are bound. -/
  Owns : World → Place → Prop
  sees {ω : World} {scope : Place} : Owns ω scope → Sees ω scope
  finds {ω : World} {scope : Place} : Owns ω scope → Finds ω scope
  later {ω ω' : World} {scope : Place} : Later ω ω' → Sees ω scope → Sees ω' scope
  hostFails {ω : World} {α : Type} :
    host.FailsWith fun f => Holds ω fun _ => (MonadExcept.throw f : Eval α)
  lookup {ω : World} (scope : Place) (name : String) :
    Holds ω fun i => (do return (← MonadState.get).lookup (scopeOf scope i) name : Eval Value)
  newObject {ω : World} (slots : Slots Text Value) : Holds ω fun _ => Eval.newObject slots
  stringMethod {ω : World} (s : Text) (m : StringMethod) :
    Holds ω fun _ => Eval.newFunction (.stringMethod s m)
  objectMethod {ω : World} (r : ObjectRef) (m : ObjectMethod) :
    Holds ω fun _ => Eval.newFunction (.objectMethod r m)
  hostFunction {ω : World} (f : HostFunction) : Holds ω fun _ => Eval.newFunction (.host f)
  innerScope {ω : World} {β : Type} {scope : Place} {f : ι → Scope → Eval β} : Sees ω scope →
    (∀ ω' inner, Later ω ω' → Owns ω' inner → Holds ω' fun i => f i (scopeOf inner i)) →
    Holds ω fun i => Eval.innerScope (scopeOf scope i) >>= f i
  bindName {ω : World} {scope : Place} (name : String) (v : Value) : Owns ω scope →
    Holds ω fun i => Eval.bind (scopeOf scope i) name v
  findTest {ω : World} {β : Type} {scope : Place} (name : Text)
    {f : ι → String × Test → Eval β} : Finds ω scope →
    (∀ found, Knows found.2 → Holds ω fun i => f i found) →
    Holds ω fun i => Eval.findTest (scopeOf scope i) name >>= f i

namespace Eval.Logic.Holds
variable {host : Host} {ι α β : Type} {L : StoreLogic host ι} {ω : L.World} {scope : L.Place}

theorem newObject (slots : Slots Text Value) : L.Holds ω fun _ => Eval.newObject slots :=
  L.newObject slots

theorem findTest (hscope : L.Finds ω scope) (name : Text) {f : ι → String × Test → Eval β}
    (hf : ∀ found, L.Knows found.2 → L.Holds ω fun i => f i found) :
    L.Holds ω fun i => Eval.findTest (L.scopeOf scope i) name >>= f i :=
  L.findTest name hscope hf

mutual

theorem ofHost (h : HostValue) : L.Holds ω fun _ => Eval.ofHost h := by
  cases h with
  | list items =>
    unfold Eval.ofHost
    exact (ofHostItems items).bind fun _ => .pure _
  | tuple items =>
    unfold Eval.ofHost
    exact (ofHostItems items).bind fun _ => .pure _
  | map entries =>
    unfold Eval.ofHost
    exact (ofHostEntries entries).bind fun _ => newObject _
  | callable f =>
    unfold Eval.ofHost
    exact L.hostFunction _
  | foreign typeName =>
    unfold Eval.ofHost
    exact .fail _
  | _ =>
    unfold Eval.ofHost
    exact .pure _

theorem ofHostItems (hs : List HostValue) : L.Holds ω fun _ => Eval.ofHostItems hs := by
  cases hs with
  | nil => exact .pure _
  | cons h hs =>
    unfold Eval.ofHostItems
    exact (ofHost h).bind fun _ => (ofHostItems hs).bind fun _ => .pure _

theorem ofHostEntries (es : List (HostKey × HostValue)) :
    L.Holds ω fun _ => Eval.ofHostEntries es := by
  cases es with
  | nil => exact .pure _
  | cons e es =>
    unfold Eval.ofHostEntries
    exact (ofHostEntry e).bind fun _ => (ofHostEntries es).bind fun _ => .pure _

theorem ofHostEntry (e : HostKey × HostValue) : L.Holds ω fun _ => Eval.ofHostEntry e := by
  obtain ⟨k, h⟩ := e
  unfold Eval.ofHostEntry
  exact (ofHost h).bind fun _ => .pure _

end

theorem values (a : Args) : L.Holds ω fun _ => a.values := by
  unfold Args.values
  split
  · exact .pure _
  · exact (newObject _).bind fun _ => .pure _

theorem builtinMember (v : Value) (name : Text) : L.Holds ω fun _ => Eval.builtinMember v name := by
  unfold Eval.builtinMember
  cases v with
  | string s =>
    dsimp only
    split
    · exact .pure _
    · split
      · exact L.stringMethod _ _
      · exact .pure _
  | object r =>
    dsimp only
    split
    · exact L.objectMethod _ _
    · exact .pure _
  | _ => exact .pure _

theorem lookupMember (object key : Value) : L.Holds ω fun _ => Eval.lookupMember object key := by
  unfold Eval.lookupMember
  cases object with
  | object r =>
    cases key with
    | string name =>
      refine (slotsOf r).bind fun slots => ?_
      cases slots.lookup name with
      | none => exact builtinMember _ name
      | some v => exact .pure v
    | _ => exact .fail _
  | array items =>
    cases key with
    | int i => exact element .array items i
    | string name => exact builtinMember _ name
    | _ => exact .fail _
  | string s =>
    cases key with
    | int i => exact (element .string s.toList i).bind fun _ => .pure _
    | string name => exact builtinMember _ name
    | _ => exact .fail _
  | _ =>
    cases key with
    | string name => exact builtinMember _ name
    | _ => exact .fail _

theorem selectByAttribute (hscope : L.Finds ω scope) (filter : String) (keep : Bool)
    (items : List Value) (a : Args) :
    L.Holds ω fun i => Eval.selectByAttribute host (L.scopeOf scope i) filter keep items a := by
  unfold Eval.selectByAttribute
  split
  · exact .fail _
  rename_i refs _
  split
  · exact .fail _
  rename_i attr testName _
  have attributeOf (r : ObjectRef) :
      L.Holds ω fun _ => do return ((← Eval.slotsOf r).lookup attr).getD .undefined :=
    (slotsOf r).bind fun _ => .pure _
  cases testName with
  | none =>
    have hpasses (r : ObjectRef) := (attributeOf r).bind fun v => (truthy v).bind fun c =>
      pure (c == keep)
    exact (filterM hpasses refs).bind fun _ => .pure _
  | some name =>
    refine findTest hscope name fun (known, test) ht => (values _).bind fun args => ?_
    have hpasses (r : ObjectRef) := (attributeOf r).bind fun v =>
      (runTest known ht v args).bind fun c => pure (c == keep)
    exact (filterM hpasses refs).bind fun _ => .pure _

theorem arrayFilter (hscope : L.Finds ω scope) (name : Text) (items : List Value) (a : Args) :
    L.Holds ω fun i => Eval.arrayFilter host (L.scopeOf scope i) name items a := by
  unfold Eval.arrayFilter
  split
  case h_6 => exact sortFilter items a
  case h_7 => exact (unique [] items).bind fun _ => .pure _
  case h_8 => exact selectByAttribute hscope _ _ items a
  case h_9 => exact selectByAttribute hscope _ _ items a
  case h_10 => exact .fail _
  all_goals exact .pure _

theorem filterOfKind (hscope : L.Finds ω scope) (name : Text) (v : Value) (a : Args) :
    L.Holds ω fun i => Eval.filterOfKind host (L.scopeOf scope i) name v a := by
  have hunknown : L.Holds ω fun _ => Eval.filterOfKind.unknown name v := .fail _
  have hunless (c : Prop) [Decidable c] (w : Value) :
      L.Holds ω fun _ => if c then Pure.pure w else Eval.filterOfKind.unknown name v := by
    split
    · exact .pure _
    · exact hunknown
  unfold Eval.filterOfKind
  cases v with
  | array items => exact arrayFilter hscope name items a
  | string s => exact stringFilter name s a
  | object r => exact objectFilter name r
  | int i => exact hunless _ _
  | float f => exact hunless _ _
  | bool b => exact hunless _ _
  | _ => exact hunknown

theorem plainFilter (hscope : L.Finds ω scope) (name : Text) (v : Value) (a : Args) :
    L.Holds ω fun i => Eval.plainFilter host (L.scopeOf scope i) name v a := by
  unfold Eval.plainFilter
  split
  · exact toJsonFilter v a
  · exact joinFilter v a
  · exact intFilter v a
  · exact floatFilter v a
  · exact (textOf v).bind fun _ => .pure _
  · exact defaultFilter v a
  · exact filterOfKind hscope name v a

theorem applyFilter (hscope : L.Finds ω scope) (keywords : Slots String Value)
    (name : Text) (positional : List Value) (v : Value) :
    L.Holds ω fun i => Eval.applyFilter host (L.scopeOf scope i) keywords name positional v := by
  induction positional generalizing name v with
  | nil =>
    unfold Eval.applyFilter
    split
    · split
      · exact mapAttribute _ _ _
      · exact .fail _
    · exact plainFilter hscope name _ _
  | cons p ps ih =>
    unfold Eval.applyFilter
    split
    · split
      · exact mapAttribute _ _ _
      · cases p with
        | string inner => exact (mapM (ih inner) _).bind fun _ => .pure _
        | _ => exact .fail _
    · exact plainFilter hscope name _ _

theorem callRaise (a : Args) : L.Holds ω fun _ => Eval.callRaise a := by
  unfold Eval.callRaise
  refine (values a).bind fun vs => ?_
  cases vs with
  | nil => exact .fail _
  | cons v vs => exact (textOf v).bind fun _ => .fail _

theorem callNamespace (a : Args) : L.Holds ω fun _ => Eval.callNamespace a := by
  unfold Eval.callNamespace
  split
  · exact newObject _
  · split
    · exact .pure _
    · exact .fail _
  · exact .fail _

theorem callHost (f : HostFunction) (a : Args) :
    L.Holds ω fun _ => Eval.callHost host f a := by
  unfold Eval.callHost
  refine .bind (.mapM toHost _) fun as => ?_
  refine .bind (.mapM ?_ _) fun ks => ?_
  · rintro ⟨k, v⟩
    exact (toHost v).bind fun _ => .pure _
  split
  · exact ofHost _
  · rename_i e he
    exact L.hostFails e (.call he)

end Eval.Logic.Holds
end ChatTemplate
