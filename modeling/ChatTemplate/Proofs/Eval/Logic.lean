import ChatTemplate.Eval.Calls
import ChatTemplate.Eval.Filters
import ChatTemplate.Eval.Members
import ChatTemplate.Eval.Operators
import ChatTemplate.Proofs.Eval.Outcome

/-!
# Logics of evaluations

An `Eval.Logic` is a property of families of evaluations, of the same one for different evaluators
or in different stores, that goes through sequencing and that the questions to the store have. What
operators, slices, methods, tests and most filters do is made of questions, so that any logic holds
of it. There is one lemma for each of them, and none of them asks what the logic says.
-/

namespace ChatTemplate

namespace Fault

/-- The failure has no place yet. -/
def Raw (f : Fault) : Prop := ∀ cause pos, f = .error cause pos → pos = none

theorem raw_error (cause : Cause) : (error cause none).Raw := by
  intro cause' pos h
  cases h
  rfl

theorem raw_escape (why : Escape) : (escape why).Raw := by
  intro cause pos h
  cases h

theorem raw_endless : endless.Raw := by
  intro cause pos h
  cases h

end Fault

/-- A property of families of evaluations that goes through sequencing, and that questions to the
store have. What it says may depend on what there is in the stores, its world. -/
structure Eval.Logic (host : Host) (ι : Type) where
  World : Type
  Holds : {α : Type} → World → (ι → Eval α) → Prop
  /-- The tests that may be found. -/
  Knows : Test → Prop
  pure {ω : World} {α : Type} (a : α) : Holds ω fun _ => Pure.pure a
  throw {ω : World} {α : Type} {f : Fault} : f.Raw → Holds ω fun _ => (MonadExcept.throw f : Eval α)
  bind {ω : World} {α β : Type} {m : ι → Eval α} {f : ι → α → Eval β} :
    Holds ω m → (∀ a, Holds ω fun i => f i a) → Holds ω fun i => m i >>= f i
  datum {ω : World} (v : Value) : Holds ω fun _ => Eval.datum v
  equal {ω : World} (v w : Value) : Holds ω fun _ => Eval.equal v w
  holds? {ω : World} (vs : List Value) (v : Value) : Holds ω fun _ => Eval.finite (·.holds? vs v)
  truthy {ω : World} (v : Value) : Holds ω fun _ => Eval.truthy v
  slotsOf {ω : World} (r : ObjectRef) : Holds ω fun _ => Eval.slotsOf r
  hostTest {ω : World} (name key : String) (v : Value) (args : List Value) : Knows (.host key) →
    Holds ω fun _ => Eval.runTest host name (.host key) v args

namespace Eval.Logic.Holds
variable {host : Host} {ι α β : Type} {L : Logic host ι} {ω : L.World}

/-! ### Sequencing -/

theorem pure (a : α) : L.Holds ω fun _ => (Pure.pure a : Eval α) := L.pure a

theorem fail (c : Cause) : L.Holds ω fun _ => (Eval.fail c : Eval α) := L.throw (Fault.raw_error c)

theorem escape (e : Escape) : L.Holds ω fun _ => (Eval.escape e : Eval α) :=
  L.throw (Fault.raw_escape e)

theorem bind {m : ι → Eval α} {f : ι → α → Eval β} (hm : L.Holds ω m)
    (hf : ∀ a, L.Holds ω fun i => f i a) : L.Holds ω fun i => m i >>= f i :=
  L.bind hm hf

theorem fail_bind (c : Cause) {f : ι → α → Eval β} : L.Holds ω fun i => Eval.fail c >>= f i :=
  fail c

theorem map {m : ι → Eval α} (f : α → β) (hm : L.Holds ω m) : L.Holds ω fun i => f <$> m i := by
  simp only [map_eq_pure_bind]
  exact hm.bind fun a => .pure (f a)

theorem mapM {f : ι → α → Eval β} (hf : ∀ a, L.Holds ω fun i => f i a) (as : List α) :
    L.Holds ω fun i => as.mapM (f i) := by
  induction as with
  | nil => exact .pure _
  | cons a as ih =>
    simp only [List.mapM_cons]
    exact (hf a).bind fun b => ih.bind fun bs => .pure _

theorem forM {f : ι → α → Eval Unit} (hf : ∀ a, L.Holds ω fun i => f i a) (as : List α) :
    L.Holds ω fun i => as.forM (f i) := by
  induction as with
  | nil => exact .pure _
  | cons a as ih => exact (hf a).bind fun _ => ih

theorem filterM {p : ι → α → Eval Bool} (hp : ∀ a, L.Holds ω fun i => p i a) (as : List α) :
    L.Holds ω fun i => as.filterM (p i) := by
  have haux (kept : List α) : L.Holds ω fun i => as.filterAuxM (p i) kept := by
    induction as generalizing kept with
    | nil => exact .pure kept
    | cons a as ih => exact (hp a).bind fun b => ih _
  exact (haux []).bind fun kept => .pure kept.reverse

/-! ### Single steps -/

theorem datum (v : Value) : L.Holds ω fun _ => Eval.datum v := L.datum v

theorem textOf (v : Value) : L.Holds ω fun _ => Eval.textOf v := (datum v).bind fun _ => .pure _

theorem equal (v w : Value) : L.Holds ω fun _ => Eval.equal v w := L.equal v w

theorem holds? (vs : List Value) (v : Value) : L.Holds ω fun _ => Eval.finite (·.holds? vs v) :=
  L.holds? vs v

theorem truthy (v : Value) : L.Holds ω fun _ => Eval.truthy v := L.truthy v

theorem slotsOf (r : ObjectRef) : L.Holds ω fun _ => Eval.slotsOf r := L.slotsOf r

/-! ### The host and arguments -/

theorem toHost (v : Value) : L.Holds ω fun _ => Eval.toHost v :=
  (datum v).bind fun _ => .pure _

theorem expectCount (a : Args) (method : String) (least most : Nat) :
    L.Holds ω fun _ => a.expectCount method least most := by
  unfold Args.expectCount
  split
  · exact .pure _
  · exact .fail _

theorem pick (a : Args) (method : String) (params : List String) :
    L.Holds ω fun _ => a.pick method params := by
  unfold Args.pick
  dsimp only
  split
  · exact .fail_bind _
  · split
    · exact .fail _
    · exact .pure _

theorem asString (method : String) (v : Value) : L.Holds ω fun _ => Eval.asString method v := by
  cases v with
  | string s => exact .pure _
  | _ => exact .fail _

theorem asString? (method : String) (v : Option Value) :
    L.Holds ω fun _ => Eval.asString? method v := by
  cases v with
  | none => exact .pure _
  | some v =>
    cases v with
    | null => exact .pure _
    | undefined => exact .pure _
    | _ => exact (asString method _).map _

theorem asInt (method : String) (v : Value) : L.Holds ω fun _ => Eval.asInt method v := by
  cases v with
  | int i => exact .pure _
  | _ => exact .fail _

theorem asLimit (method : String) (v : Option Value) :
    L.Holds ω fun _ => Eval.asLimit method v := by
  cases v with
  | none => exact .pure _
  | some v => exact asInt method v

theorem asSize (i : Int) (whole : Nat) : L.Holds ω fun _ => Eval.asSize i whole := by
  unfold Eval.asSize
  split
  · exact .escape _
  · exact .pure _

/-! ### Members and slices -/

theorem integerText (i : Int) : L.Holds ω fun _ => Eval.integerText i := by
  unfold Eval.integerText
  split
  · exact .pure _
  · exact .escape _

theorem numberText (n : Number) : L.Holds ω fun _ => Eval.numberText n := by
  cases n with
  | int i => exact integerText i
  | float f => exact .pure _

theorem element (kind : ValueKind) (items : List α) (i : Int) :
    L.Holds ω fun _ => Eval.element kind items i := by
  unfold Eval.element
  dsimp only
  split
  · exact .pure _
  · exact (integerText i).bind fun _ => .fail _

theorem sliceBound (v : Value) : L.Holds ω fun _ => Eval.sliceBound v := by
  cases v with
  | int i => exact .pure _
  | undefined => exact .pure _
  | _ => exact .fail _

theorem slice (object : Value) (start stop step : Option Int) :
    L.Holds ω fun _ => Eval.slice object start stop step := by
  unfold Eval.slice
  split
  · exact .fail _
  cases object with
  | array items => exact .pure _
  | string s => exact .pure _
  | _ => exact .fail _

/-! ### Operators -/

theorem inRange (op : String) (n : Except Int Number) : L.Holds ω fun _ => Eval.inRange op n := by
  cases n with
  | error i => exact .escape _
  | ok n => exact .pure _

theorem numeric (op : String) (a b : Number) : L.Holds ω fun _ => Eval.numeric op a b := by
  unfold Eval.numeric
  split
  case h_4 =>
    split
    · exact .fail _
    · split
      · exact .pure _
      · exact (numberText a).bind fun _ => (numberText b).bind fun _ => .fail _
  case h_5 =>
    split
    · exact .fail _
    · exact inRange _ _
  case h_10 => exact .fail _
  all_goals first | exact inRange _ _ | exact .pure _

theorem sum (left right : Value) : L.Holds ω fun _ => Eval.sum left right := by
  have joined (v : Value) (t : Text) :
      L.Holds ω fun _ => do return Value.string ((← Eval.textOf v) ++ t) :=
    (textOf v).bind fun _ => .pure _
  unfold Eval.sum
  cases left with
  | array a =>
    cases right with
    | array b => exact .pure _
    | string t => exact joined _ t
    | _ => exact .fail _
  | string s => exact (textOf right).bind fun _ => .pure _
  | _ =>
    cases right with
    | string t => exact joined _ t
    | _ => exact .fail _

theorem contained (op : String) (left right : Value) :
    L.Holds ω fun _ => Eval.contained op left right := by
  unfold Eval.contained
  cases right with
  | array items => exact holds? _ _
  | string t =>
    cases left with
    | string s => exact .pure _
    | _ => exact .fail _
  | object r =>
    cases left with
    | string name => exact (slotsOf r).bind fun _ => .pure _
    | _ => exact .fail _
  | _ => cases left <;> exact .fail _

theorem present (op : String) (left right : Value) :
    L.Holds ω fun _ => Eval.present op left right := by
  unfold Eval.present
  split
  · exact (textOf left).bind fun _ => (textOf right).bind fun _ => .pure _
  split
  · exact numeric op _ _
  split
  · exact sum left right
  split
  · exact (contained op left right).bind fun _ => .pure _
  · exact .fail _

theorem binary (op : String) (left right : Value) :
    L.Holds ω fun _ => Eval.binary op left right := by
  unfold Eval.binary
  split
  · exact (equal left right).bind fun _ => .pure _
  split
  · exact (equal left right).bind fun _ => .pure _
  split
  · split
    · exact .pure _
    · exact .fail _
  · exact .fail _
  · exact .fail _
  · exact .fail _
  · exact present op _ _

/-! ### Methods -/

theorem stripped (method : String)
    (how : (Codepoint → Bool) → List Codepoint → List Codepoint) (s : Text) (a : Args) :
    L.Holds ω fun _ => Eval.stripped method how s a := by
  unfold Eval.stripped
  refine (pick a _ _).bind fun picked => (asString? _ _).bind fun chars => ?_
  cases chars with
  | none => exact .pure _
  | some chars => exact .pure _

theorem affixed (method : String) (fits : List Codepoint → List Codepoint → Bool)
    (s : Text) (a : Args) : L.Holds ω fun _ => Eval.affixed method fits s a := by
  unfold Eval.affixed
  refine (expectCount a _ 1 1).bind fun _ => ?_
  split
  · exact .bind (.mapM (asString method) _) fun _ => .pure _
  · exact (asString method _).bind fun _ => .pure _
  · exact .fail _

theorem splitString (s : Text) (a : Args) : L.Holds ω fun _ => Eval.splitString s a := by
  unfold Eval.splitString
  refine (pick a _ _).bind fun picked => (asLimit _ _).bind fun limit => ?_
  refine (asString? _ _).bind fun sep => (asSize _ _).bind fun n => ?_
  cases sep with
  | none => exact .pure _
  | some sep =>
    dsimp only
    split
    · exact .escape _
    · exact .pure _

theorem replaceInString (s : Text) (a : Args) : L.Holds ω fun _ => Eval.replaceInString s a := by
  unfold Eval.replaceInString
  refine (pick a _ _).bind fun picked => ?_
  split
  · refine (asLimit _ _).bind fun limit => (asString _ _).bind fun old => ?_
    exact (asString _ _).bind fun new => (asSize _ _).bind fun n => .pure _
  · exact .fail _

theorem mapped (m : StringMethod) (f : List Codepoint → List Codepoint) (s : Text)
    (a : Args) : L.Holds ω fun _ => Eval.mapped m f s a := by
  unfold Eval.mapped
  exact (expectCount a _ 0 0).bind fun _ => .pure _

theorem callStringMethod (s : Text) (m : StringMethod) (a : Args) :
    L.Holds ω fun _ => Eval.callStringMethod s m a := by
  cases m with
  | upper => exact mapped _ _ s a
  | lower => exact mapped _ _ s a
  | title => exact mapped _ _ s a
  | capitalize => exact mapped _ _ s a
  | strip => exact stripped _ _ s a
  | lstrip => exact stripped _ _ s a
  | rstrip => exact stripped _ _ s a
  | startswith => exact affixed _ _ s a
  | endswith => exact affixed _ _ s a
  | split => exact splitString s a
  | replace => exact replaceInString s a

theorem callObjectMethod (r : ObjectRef) (m : ObjectMethod) (a : Args) :
    L.Holds ω fun _ => Eval.callObjectMethod r m a := by
  unfold Eval.callObjectMethod
  cases m with
  | get =>
    refine (pick a _ _).bind fun picked => ?_
    split
    · exact .fail _
    · exact (asString _ _).bind fun name => (slotsOf r).bind fun _ => .pure _
  | _ => exact (expectCount a _ 0 0).bind fun _ => (slotsOf r).bind fun _ => .pure _

/-! ### Tests -/

theorem testInt (test : String) (v : Value) : L.Holds ω fun _ => Eval.testInt test v := by
  cases v with
  | int i => exact .pure _
  | _ => exact .fail _

theorem runBuiltinTest (test : BuiltinTest) (v : Value) (args : List Value) :
    L.Holds ω fun _ => Eval.runBuiltinTest test v args := by
  unfold Eval.runBuiltinTest
  rcases args with _ | ⟨w, ws⟩
  · cases test with
    | odd => exact (testInt _ v).bind fun _ => .pure _
    | even => exact (testInt _ v).bind fun _ => .pure _
    | equal => exact .escape _
    | notEqual => exact .escape _
    | _ => exact .pure _
  rcases ws with _ | ⟨_, _⟩
  · cases test with
    | equal => exact .equal v w
    | notEqual => exact (equal v w).bind fun _ => .pure _
    | _ => exact .escape _
  · cases test <;> exact .escape _

theorem runTest (name : String) {test : Test} (ht : L.Knows test) (v : Value) (args : List Value) :
    L.Holds ω fun _ => Eval.runTest host name test v args := by
  cases test with
  | builtin test =>
    unfold Eval.runTest
    dsimp only
    split
    · exact .fail _
    · exact runBuiltinTest test v args
  | host key => exact L.hostTest name key v args ht

/-! ### Filters -/

theorem expectWidth (n : Int) : L.Holds ω fun _ => Eval.expectWidth n := by
  unfold Eval.expectWidth
  split
  · exact .escape _
  · exact .pure _

theorem written (text : Option Text) : L.Holds ω fun _ => match text with
      | some s => Pure.pure (Value.string s)
      | none => Eval.fail (.noJson .function) := by
  cases text with
  | none => exact .fail _
  | some s => exact .pure _

theorem toJson (v : Value) (indent : Option Int) : L.Holds ω fun _ => Eval.toJson v indent := by
  unfold Eval.toJson
  refine (datum v).bind fun d => ?_
  dsimp only
  split
  · exact .fail_bind _
  cases indent with
  | none => exact written _
  | some n =>
    dsimp only
    split
    · exact (expectWidth n).bind fun _ => written _
    · exact written _

theorem toJsonFilter (v : Value) (a : Args) : L.Holds ω fun _ => Eval.toJsonFilter v a := by
  unfold Eval.toJsonFilter
  refine (pick a _ _).bind fun picked => ?_
  split
  · exact toJson v none
  · exact toJson v none
  · exact toJson v none
  · exact toJson v (some _)
  · exact .fail _

theorem joined (sep : Text) (v : Value) : L.Holds ω fun _ => match v with
      | .array items => do return Value.string (sep.intercalate (← items.mapM Eval.textOf))
      | .string s => return Value.string (sep.intercalate (s.toList.map fun c => .ofList [c]))
      | v => Eval.fail (.unknownFilter "join" (some v.kind)) := by
  cases v with
  | array items => exact .bind (.mapM textOf items) fun _ => .pure _
  | string s => exact .pure _
  | _ => exact .fail _

theorem joinFilter (v : Value) (a : Args) : L.Holds ω fun _ => Eval.joinFilter v a := by
  unfold Eval.joinFilter
  refine (pick a _ _).bind fun picked => ?_
  cases picked.lookup "d" with
  | none => exact joined _ v
  | some w => exact (textOf w).bind fun sep => joined sep v

theorem intFilter (v : Value) (a : Args) : L.Holds ω fun _ => Eval.intFilter v a := by
  unfold Eval.intFilter
  refine (pick a _ _).bind fun picked => ?_
  cases v with
  | float f =>
    dsimp only
    split
    · exact .pure _
    · exact .escape _
    · exact .escape _
  | _ => exact .pure _

theorem floatFilter (v : Value) (a : Args) : L.Holds ω fun _ => Eval.floatFilter v a := by
  unfold Eval.floatFilter
  refine (pick a _ _).bind fun picked => ?_
  cases v with
  | int i =>
    dsimp only
    split
    · exact .pure _
    · exact .escape _
  | _ => exact .pure _

theorem defaultFilter (v : Value) (a : Args) : L.Holds ω fun _ => Eval.defaultFilter v a := by
  unfold Eval.defaultFilter
  refine (pick a _ _).bind fun picked => ?_
  dsimp only
  split
  · exact .pure _
  · exact .pure _
  refine (truthy _).bind fun falsy => (truthy v).bind fun c => ?_
  split
  · exact .pure _
  · exact .pure _

theorem sortFilter (items : List Value) (a : Args) :
    L.Holds ω fun _ => Eval.sortFilter items a := by
  unfold Eval.sortFilter
  refine (pick a _ _).bind fun picked => ?_
  split
  · exact .fail _
  · exact (truthy _).bind fun _ => .pure _

theorem unique (kept items : List Value) : L.Holds ω fun _ => Eval.unique kept items := by
  induction items generalizing kept with
  | nil => exact .pure _
  | cons v vs ih =>
    unfold Eval.unique
    refine (holds? kept v).bind fun found => ?_
    split
    · exact ih kept
    · exact ih _

theorem mapAttribute (attr : Value) (items : List Value) (a : Args) :
    L.Holds ω fun _ => Eval.mapAttribute attr items a := by
  unfold Eval.mapAttribute
  dsimp only
  split
  · exact .fail_bind _
  cases attr with
  | string name =>
    refine .bind (.mapM (fun v => ?_) items) fun _ => .pure _
    cases v with
    | object r => exact (slotsOf r).bind fun _ => .pure _
    | _ => exact .fail _
  | _ => exact .fail _

theorem indentFilter (s : Text) (a : Args) : L.Holds ω fun _ => Eval.indentFilter s a := by
  unfold Eval.indentFilter
  refine (pick a _ _).bind fun picked => ?_
  have hrest (indentation : List Codepoint) : L.Holds ω fun _ => do
      let blank ← Eval.truthy ((picked.lookup "blank").getD (.bool false))
      let first ← Eval.truthy ((picked.lookup "first").getD (.bool false))
      return Value.ofPoints (indentLines indentation first blank s.toList) :=
    (truthy _).bind fun _ => (truthy _).bind fun _ => .pure _
  dsimp only
  split
  · exact .bind (.pure _) hrest
  · exact (expectWidth _).bind fun _ => .bind (.pure _) hrest
  · exact .bind (.pure _) hrest
  · exact .fail_bind _

theorem stringFilter (name : Text) (s : Text) (a : Args) :
    L.Holds ω fun _ => Eval.stringFilter name s a := by
  unfold Eval.stringFilter
  split
  case h_6 => exact callStringMethod s _ a
  case h_7 => exact callStringMethod s _ a
  case h_8 => exact indentFilter s a
  case h_9 => exact .fail _
  all_goals exact .pure _

theorem objectFilter (name : Text) (r : ObjectRef) :
    L.Holds ω fun _ => Eval.objectFilter name r := by
  unfold Eval.objectFilter
  split
  · exact (slotsOf r).bind fun _ => .pure _
  · exact (slotsOf r).bind fun _ => .pure _
  · exact .fail _

/-! ### Global and host functions -/

theorem rangeArgument (v : Value) : L.Holds ω fun _ => Eval.rangeArgument v := by
  cases v with
  | int i => exact .pure _
  | _ => exact .fail _

theorem callRange (a : Args) : L.Holds ω fun _ => Eval.callRange a := by
  unfold Eval.callRange
  dsimp only
  split
  · exact .fail_bind _
  refine .bind (.mapM rangeArgument _) fun bounds => ?_
  split
  · exact .fail_bind _
  split
  all_goals
    split
    · exact .fail_bind _
    · exact .pure _

end Eval.Logic.Holds
end ChatTemplate
