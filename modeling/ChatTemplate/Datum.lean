import ChatTemplate.Store

/-!
# Values spelled out

A datum is a value whose objects stand in it. A value that is reachable from itself has none:
`Store.datum?` follows as many objects, one inside the other, as there are in the store, and one more,
which is missing. A longer way down meets one of them again.
-/

namespace ChatTemplate

inductive Datum
  | undefined
  | null
  | bool (b : Bool)
  | int (i : Int)
  | float (f : Float)
  | string (s : Text)
  | array (items : List Datum)
  | object (slots : List (Text × Datum))
  | function (ref : FunctionRef) (name : String)

instance : Inhabited Datum := ⟨.undefined⟩

namespace Store

mutual

/-- The datum of a value, where `object?` spells out the objects in it. -/
def datumWith (st : Store) (object? : ObjectRef → Option Datum) : Value → Option Datum
  | .undefined => some .undefined
  | .null => some .null
  | .bool b => some (.bool b)
  | .int i => some (.int i)
  | .float f => some (.float f)
  | .string s => some (.string s)
  | .array items => (dataWith st object? items).map .array
  | .object r => object? r
  | .function r => some (.function r (st.function r).name)

def dataWith (st : Store) (object? : ObjectRef → Option Datum) : List Value → Option (List Datum)
  | [] => some []
  | v :: vs => do
    let d ← datumWith st object? v
    let ds ← dataWith st object? vs
    return d :: ds

end

/-- Spells out an object, with at most `n` others inside each other in it. -/
def objectWithin (st : Store) : Nat → ObjectRef → Option Datum
  | 0, _ => none
  | n + 1, r => do
    let slots := st.slots r
    let ds ← st.dataWith (st.objectWithin n) (slots.map Prod.snd)
    return .object (slots.names.zip ds)

/-- The datum of a value, if it has one. -/
def datum? (st : Store) (v : Value) : Option Datum :=
  st.datumWith (st.objectWithin (st.objects.size + 1)) v

end Store
end ChatTemplate
