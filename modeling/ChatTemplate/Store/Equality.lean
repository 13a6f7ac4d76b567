import ChatTemplate.Number.Double
import ChatTemplate.Store

/-!
# Equality of values

Numbers and truth values are compared by their amount, arrays item by item, objects name by name.
Comparing two values that are reachable from themselves may not end; `Store.equal?` follows as many
pairs of objects, one inside the other, as there are, and one more, where an object is missing. On a
longer way a pair recurs.
-/

namespace ChatTemplate

/-- The amount of a number or truth value. -/
def Value.amount? : Value → Option Double
  | .bool b => some (Double.ofInt (if b then 1 else 0))
  | .int i => some (Double.ofInt i)
  | .float f => some (Double.ofFloat f)
  | _ => none

/-- Do all elements pass? A missing answer before the first one that fails is passed on. -/
def allPass {α : Type} (p : α → Option Bool) : List α → Option Bool
  | [] => some true
  | x :: xs =>
    match p x with
    | some true => allPass p xs
    | r => r

namespace Store

mutual

/-- Equality of values, where `objects` compares objects. -/
def equalWith (objects : ObjectRef → ObjectRef → Option Bool) : Value → Value → Option Bool
  | .undefined, .undefined => some true
  | .null, .null => some true
  | .string a, .string b => some (a == b)
  | .array as, .array bs =>
    if as.length == bs.length then equalItems objects as bs else some false
  | .object r, .object s => objects r s
  | .function r, .function s => some (r == s)
  | v, w =>
    match v.amount?, w.amount? with
    | some a, some b => some (a.compare? b == some .eq)
    | _, _ => some false

def equalItems (objects : ObjectRef → ObjectRef → Option Bool) :
    List Value → List Value → Option Bool
  | v :: vs, w :: ws =>
    match equalWith objects v w with
    | some true => equalItems objects vs ws
    | r => r
  | _, _ => some true

end

/-- Have two objects the same names, in whatever order? -/
def sameNames (a b : Slots Text Value) : Bool :=
  a.length == b.length && a.all fun (k, _) => (b.lookup k).isSome

/-- Equality of objects that follows at most `n` pairs of objects inside each other. -/
def equalObjects (st : Store) : Nat → ObjectRef → ObjectRef → Option Bool
  | 0, _, _ => none
  | n + 1, r, s =>
    let a := st.slots r
    let b := st.slots s
    if sameNames a b then
      allPass (fun (k, v) => equalWith (st.equalObjects n) v ((b.lookup k).getD .undefined)) a
    else some false

/-- Are two values equal? -/
def equal? (st : Store) (v w : Value) : Option Bool :=
  equalWith (st.equalObjects (st.objects.size * st.objects.size + 1)) v w

/-- Does a list hold a value equal to `v`? -/
def holds? (st : Store) (items : List Value) (v : Value) : Option Bool :=
  (allPass (fun w => (st.equal? w v).map (!·)) items).map (!·)

end Store
end ChatTemplate
