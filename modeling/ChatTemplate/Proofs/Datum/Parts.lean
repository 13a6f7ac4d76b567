import ChatTemplate.Proofs.Json.RoundTrip
import ChatTemplate.Proofs.Store.Equality

/-!
# What data are made of

The kinds of the parts of a datum (`Datum.Of`), and whether an object in it has two slots of one name
(`Datum.Distinct`), which none has that is spelled out in a store of dictionaries
(`Store.Dictionaries.distinct`).
-/

namespace ChatTemplate

namespace Datum

def kind : Datum → ValueKind
  | .undefined => .undefined
  | .null => .null
  | .bool _ => .bool
  | .int _ => .int
  | .float _ => .float
  | .string _ => .string
  | .array _ => .array
  | .object _ => .object
  | .function .. => .function

/-- Each part of the datum, the whole of it included, is of one of the kinds. -/
inductive Of (kinds : List ValueKind) : Datum → Prop
  | undefined (h : .undefined ∈ kinds) : Of kinds .undefined
  | null (h : .null ∈ kinds) : Of kinds .null
  | bool (h : .bool ∈ kinds) (b : Bool) : Of kinds (.bool b)
  | int (h : .int ∈ kinds) (i : Int) : Of kinds (.int i)
  | float (h : .float ∈ kinds) (f : Float) : Of kinds (.float f)
  | string (h : .string ∈ kinds) (s : Text) : Of kinds (.string s)
  | array (h : .array ∈ kinds) {items : List Datum} (hitems : ∀ d ∈ items, Of kinds d) :
      Of kinds (.array items)
  | object (h : .object ∈ kinds) {slots : List (Text × Datum)} (hslots : ∀ e ∈ slots, Of kinds e.2) :
      Of kinds (.object slots)
  | function (h : .function ∈ kinds) (ref : FunctionRef) (name : String) :
      Of kinds (.function ref name)

/-- No object in the datum has two slots of one name. -/
inductive Distinct : Datum → Prop
  | undefined : Distinct .undefined
  | null : Distinct .null
  | bool (b : Bool) : Distinct (.bool b)
  | int (i : Int) : Distinct (.int i)
  | float (f : Float) : Distinct (.float f)
  | string (s : Text) : Distinct (.string s)
  | array {items : List Datum} (hitems : ∀ d ∈ items, Distinct d) : Distinct (.array items)
  | object {slots : List (Text × Datum)} (hnames : (Slots.names slots).Nodup)
      (hslots : ∀ e ∈ slots, Distinct e.2) : Distinct (.object slots)
  | function (ref : FunctionRef) (name : String) : Distinct (.function ref name)

variable {kinds : List ValueKind} {d : Datum}

theorem Of.hasFunction_eq_false (hkinds : .function ∉ kinds) (h : d.Of kinds) :
    d.hasFunction = false := by
  induction h with
  | array _ _ ih =>
    rw [hasFunction, anyHasFunction_eq_any]
    simpa using ih
  | object _ _ ih =>
    rw [hasFunction, anySlotHasFunction_eq_any]
    exact List.any_eq_false.mpr fun e he => by simp [ih e he]
  | function h => exact absurd h hkinds
  | _ => rfl

theorem Plain.distinct (h : d.Plain) : d.Distinct := by
  induction h with
  | array _ ih => exact .array ih
  | object hnames _ ih => exact .object hnames ih
  | _ => constructor

end Datum

namespace Store
variable {st : Store} {object? : ObjectRef → Option Datum} {v : Value} {d : Datum}

theorem kind_of_datum? (h : st.datum? v = some d) : d.kind = v.kind := by
  cases v with
  | array items =>
    obtain ⟨ds, -, rfl⟩ := Option.map_eq_some_iff.mp h
    rfl
  | object r =>
    obtain ⟨ds, -, h⟩ := Option.bind_eq_some_iff.mp h
    cases h
    rfl
  | _ =>
    cases h
    rfl

theorem length_of_dataWith {vs : List Value} {ds : List Datum}
    (h : st.dataWith object? vs = some ds) : ds.length = vs.length := by
  induction vs generalizing ds with
  | nil =>
    cases h
    rfl
  | cons v vs ih =>
    obtain ⟨d, -, h⟩ := Option.bind_eq_some_iff.mp h
    obtain ⟨ds, hds, h⟩ := Option.bind_eq_some_iff.mp h
    cases h
    rw [List.length_cons, List.length_cons, ih hds]

mutual

theorem distinct_of_datumWith (hobject : ∀ r d, object? r = some d → d.Distinct) (v : Value)
    (d : Datum) (h : st.datumWith object? v = some d) : d.Distinct := by
  cases v with
  | array items =>
    obtain ⟨ds, hds, rfl⟩ := Option.map_eq_some_iff.mp h
    exact .array (distinct_of_dataWith hobject items ds hds)
  | object r => exact hobject r d h
  | _ =>
    cases h
    constructor

theorem distinct_of_dataWith (hobject : ∀ r d, object? r = some d → d.Distinct) (vs : List Value)
    (ds : List Datum) (h : st.dataWith object? vs = some ds) : ∀ d ∈ ds, d.Distinct := by
  cases vs with
  | nil =>
    cases h
    exact nofun
  | cons v vs =>
    obtain ⟨d, hd, h⟩ := Option.bind_eq_some_iff.mp h
    obtain ⟨ds, hds, h⟩ := Option.bind_eq_some_iff.mp h
    cases h
    exact List.forall_mem_cons.mpr ⟨distinct_of_datumWith hobject v d hd,
      distinct_of_dataWith hobject vs ds hds⟩

end

theorem Dictionaries.distinct_of_objectWithin (hst : st.Dictionaries) (n : Nat) (r : ObjectRef)
    (d : Datum) (h : st.objectWithin n r = some d) : d.Distinct := by
  induction n generalizing r d with
  | zero => cases h
  | succ n ih =>
    obtain ⟨ds, hds, h⟩ := Option.bind_eq_some_iff.mp h
    cases h
    have hlength := length_of_dataWith hds
    have hnames : (Slots.names ((st.slots r).names.zip ds)).Nodup := by
      rw [Slots.names, List.map_fst_zip (by simp [Slots.names, hlength])]
      exact hst r
    refine .object hnames fun e he => ?_
    exact distinct_of_dataWith ih _ ds hds e.2 (List.of_mem_zip he).2

theorem Dictionaries.distinct (hst : st.Dictionaries) (h : st.datum? v = some d) : d.Distinct :=
  distinct_of_datumWith (hst.distinct_of_objectWithin _) v d h

end Store
end ChatTemplate
