import ChatTemplate.Eval.Stmt
import ChatTemplate.Proofs.Eval.Logic
import ChatTemplate.Proofs.Eval.Respects

/-!
# Operations that only look

Every preorder of stores is a logic of what evaluations do to the store (`Eval.Respects.logic`). For
equality it says that operators, slices, methods of strings, tests and most filters leave the store
as it is.
-/

namespace ChatTemplate.Eval
variable {α : Type}

/-- A test of the host may answer a truth value only. -/
theorem Respects.hostTest {I : Store → Store → Prop} [IsPreorder Store I] (host : Host)
    (name key : String) (v : Value) (args : List Value) :
    Respects I (Eval.runTest host name (.host key) v args) := by
  unfold Eval.runTest
  refine .bind .get fun st => ?_
  split
  · exact .pure _
  · exact .throw _

theorem Respects.findTest {I : Store → Store → Prop} [IsPreorder Store I] (scope : Scope)
    (name : Text) : Respects I (Eval.findTest scope name) := by
  unfold Eval.findTest
  refine .bind .get fun st => ?_
  split
  · exact .pure _
  · exact .fail _

def Respects.logic (I : Store → Store → Prop) [IsPreorder Store I] (host : Host) :
    Logic host Unit where
  World := Unit
  Holds _ m := Respects I (m ())
  Knows _ := True
  pure := .pure
  throw _ := .throw _
  bind := .bind
  datum := .datum
  equal := .equal
  holds? _ _ := .finite _
  truthy := .truthy
  slotsOf := .slotsOf
  hostTest name key v args _ := .hostTest host name key v args

/-- The evaluation leaves the store as it is. -/
abbrev Looks (m : Eval α) : Prop := m.Respects Eq

namespace Looks

theorem of_holds (host : Host) {m : Eval α} (h : (Respects.logic Eq host).Holds () fun _ => m) :
    Looks m := h

theorem toHost (v : Value) : Looks (Eval.toHost v) := of_holds Host.none (.toHost v)

theorem pick (a : Args) (method : String) (params : List String) : Looks (a.pick method params) :=
  of_holds Host.none (.pick a method params)

theorem asString (method : String) (v : Value) : Looks (Eval.asString method v) :=
  of_holds Host.none (.asString method v)

theorem element (kind : ValueKind) (items : List α) (i : Int) :
    Looks (Eval.element kind items i) :=
  of_holds Host.none (.element kind items i)

theorem binary (op : String) (left right : Value) : Looks (Eval.binary op left right) :=
  of_holds Host.none (.binary op left right)

theorem callStringMethod (s : Text) (method : StringMethod) (a : Args) :
    Looks (Eval.callStringMethod s method a) :=
  of_holds Host.none (.callStringMethod s method a)

theorem runTest (host : Host) (name : String) (test : Test) (v : Value) (args : List Value) :
    Looks (Eval.runTest host name test v args) :=
  of_holds host (.runTest name trivial v args)

theorem sliceBound (v : Value) : Looks (Eval.sliceBound v) := of_holds Host.none (.sliceBound v)

theorem expectName (place : String) (e : Expr) : Looks (Eval.expectName place e) := by
  unfold Eval.expectName
  split
  · exact .pure _
  · exact .fail _

theorem binder (target : Target) : Looks (Eval.binder target) := by
  unfold Eval.binder
  cases target with
  | name w => exact .pure _
  | tuple items => exact (Respects.mapM _ (expectName "unpacking") items).bind fun _ => .pure _

theorem param (a : Arg) : Looks (Eval.param a) := by
  unfold Eval.param
  split
  · exact .pure _
  · exact .pure _
  · exact .fail _

theorem callerParam (a : Arg) : Looks (Eval.callerParam a) := by
  unfold Eval.callerParam
  split
  · exact expectName _ _
  · exact .fail _

theorem callRange (a : Args) : Looks (Eval.callRange a) := of_holds Host.none (.callRange a)

theorem toJsonFilter (v : Value) (a : Args) : Looks (Eval.toJsonFilter v a) :=
  of_holds Host.none (.toJsonFilter v a)

theorem joinFilter (v : Value) (a : Args) : Looks (Eval.joinFilter v a) :=
  of_holds Host.none (.joinFilter v a)

theorem stringFilter (name s : Text) (a : Args) : Looks (Eval.stringFilter name s a) :=
  of_holds Host.none (.stringFilter name s a)

end Looks
end ChatTemplate.Eval
