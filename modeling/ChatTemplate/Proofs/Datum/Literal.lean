import ChatTemplate.Eval.Stmt
import ChatTemplate.Proofs.Datum.Parts
import ChatTemplate.Proofs.Eval.Steps
import ChatTemplate.Proofs.Text.Quoted

/-!
# Literal texts are told apart

What is written for a datum of `literalKinds` tells the datum and where it ends, if nothing follows
that may stand inside a number (`Datum.literal_append_inj`): the first code point tells its kind, and
the items between brackets are told apart one after the other. So a template prints two arrays or
objects alike if and only if they hold the same (`Eval.containers_print_alike`).
-/

namespace ChatTemplate

namespace Datum
open Json (Closes closes_nil closes_cons)
variable {α : Type} {d e : Datum} {c close : Codepoint} {r s : List Codepoint}

/-- The kinds of what is written in a way of its own: undefined values leave nothing, functions only
a name. -/
def literalKinds : List ValueKind := [.null, .bool, .int, .string, .array, .object]

/-! ### The first code point -/

/-- How the literals that do not begin with a digit begin. -/
def fronts : List (Codepoint × ValueKind) :=
  [('N', .null), ('T', .bool), ('F', .bool), ('-', .int), ('\'', .string), ('"', .string),
    ('[', .array), ('\x7b', .object)]

/-- The kind of a datum whose literal begins with this code point. -/
def frontKind? (c : Codepoint) : Option ValueKind :=
  if Text.isDigit c then some .int else fronts.lookup c

theorem literalItems_eq_map (ds : List Datum) : literalItems ds = ds.map literal := by
  induction ds with
  | nil => rfl
  | cons d ds ih => rw [literalItems, ih, List.map_cons]

theorem literalSlots_eq_map (es : List (Text × Datum)) : literalSlots es = es.map literalSlot := by
  induction es with
  | nil => rfl
  | cons e es ih => rw [literalSlots, ih, List.map_cons]

/-- Items with commas between them, in brackets. -/
def bracketed (opening closing : Codepoint) (items : List (List Codepoint)) : List Codepoint :=
  opening :: (List.intercalate [.ofChar ',', .ofChar ' '] items ++ [closing])

theorem toList_literal_array (items : List Datum) : (literal (.array items)).toList =
    bracketed '[' ']' (items.map fun d => d.literal.toList) := by
  rw [literal, literalItems_eq_map, Text.toList_append, Text.toList_append, commaList,
    Text.intercalate, List.map_map]
  rfl

theorem toList_literal_object (slots : List (Text × Datum)) : (literal (.object slots)).toList =
    bracketed '\x7b' '\x7d' (slots.map fun e => (literalSlot e).toList) := by
  rw [literal, literalSlots_eq_map, Text.toList_append, Text.toList_append, commaList,
    Text.intercalate, List.map_map]
  rfl

theorem exists_literal_cons (hd : d.Of literalKinds) :
    ∃ c cs, d.literal.toList = c :: cs ∧ frontKind? c = some d.kind := by
  cases hd with
  | undefined h => exact absurd h (by decide)
  | null => exact ⟨'N', _, rfl, rfl⟩
  | bool _ b =>
    cases b with
    | false => exact ⟨'F', _, rfl, rfl⟩
    | true => exact ⟨'T', _, rfl, rfl⟩
  | int _ i =>
    have htext := Json.toList_toString_int i
    obtain ⟨d, ds, hcons, hd⟩ := Json.exists_decimal_cons i.natAbs
    rw [hcons] at htext
    by_cases hi : i < 0
    · rw [decide_eq_true hi] at htext
      exact ⟨'-', _, htext, rfl⟩
    · rw [decide_eq_false hi] at htext
      exact ⟨d, ds, htext, if_pos hd⟩
  | float h => exact absurd h (by decide)
  | string _ s =>
    refine ⟨Text.quoteFor s.toList, _, rfl, ?_⟩
    rcases Text.quoteFor_eq s.toList with hquote | hquote <;> rw [hquote] <;> rfl
  | array => exact ⟨'[', _, toList_literal_array _, rfl⟩
  | object => exact ⟨'\x7b', _, toList_literal_object _, rfl⟩
  | function h => exact absurd h (by decide)

/-- Literals that begin a text alike are of data of one kind. -/
theorem kind_eq_of_append (hd : d.Of literalKinds) (he : e.Of literalKinds)
    (h : d.literal.toList ++ r = e.literal.toList ++ s) : d.kind = e.kind := by
  obtain ⟨c, cs, hcs, hkind⟩ := exists_literal_cons hd
  obtain ⟨c', cs', hcs', hkind'⟩ := exists_literal_cons he
  rw [hcs, hcs'] at h
  obtain ⟨rfl, -⟩ := List.cons.inj h
  exact Option.some.inj (hkind.symm.trans hkind')

/-! ### Items between brackets -/

/-- What follows an item: a comma and the next one, or the closing bracket and the rest. -/
def behind (write : α → List Codepoint) (close : Codepoint) (rest : List Codepoint) :
    List α → List Codepoint
  | [] => close :: rest
  | x :: xs => ',' :: ' ' :: (write x ++ behind write close rest xs)

theorem closes_behind (hclose : close = ']' ∨ close = '\x7d') (write : α → List Codepoint)
    (rest : List Codepoint) (xs : List α) : Closes (behind write close rest xs) := by
  cases xs with
  | nil => exact closes_cons (by tauto) rest
  | cons x xs => exact closes_cons (.inl rfl) _

theorem bracketed_cons_append (write : α → List Codepoint) (opening : Codepoint) (x : α) (xs : List α) :
    bracketed opening close ((x :: xs).map write) ++ r =
      opening :: (write x ++ behind write close r xs) := by
  rw [bracketed, List.cons_append, List.append_assoc]
  refine congrArg (opening :: ·) ?_
  induction xs generalizing x with
  | nil => simp [behind]
  | cons y xs ih =>
    rw [List.map_cons, List.map_cons, List.intercalate_cons_cons, ← List.map_cons,
      List.append_assoc, ih y]
    simp [behind]

/-- Each item of the one list is told apart from each of the other, and none is taken for the end. -/
structure Apart (write : α → List Codepoint) (close : Codepoint) (xs ys : List α) : Prop where
  inj : ∀ x ∈ xs, ∀ y ∈ ys, ∀ r s, Closes r → Closes s → write x ++ r = write y ++ s → x = y ∧ r = s
  left : ∀ x ∈ xs, ∀ r s, write x ++ r ≠ close :: s
  right : ∀ y ∈ ys, ∀ r s, write y ++ r ≠ close :: s

namespace Apart
variable {write : α → List Codepoint} {x y : α} {xs ys : List α}

theorem tail (h : Apart write close (x :: xs) (y :: ys)) : Apart write close xs ys :=
  ⟨fun x hx y hy => h.inj x (List.mem_cons_of_mem _ hx) y (List.mem_cons_of_mem _ hy),
    fun x hx => h.left x (List.mem_cons_of_mem _ hx),
    fun y hy => h.right y (List.mem_cons_of_mem _ hy)⟩

theorem behind_inj (hclose : close = ']' ∨ close = '\x7d') (h : Apart write close xs ys)
    (heq : behind write close r xs = behind write close s ys) : xs = ys ∧ r = s := by
  have hcomma : close ≠ ',' := by rcases hclose with rfl | rfl <;> decide
  induction xs generalizing ys with
  | nil =>
    cases ys with
    | nil => exact ⟨rfl, (List.cons.inj heq).2⟩
    | cons y ys => exact absurd (List.cons.inj heq).1 hcomma
  | cons x xs ih =>
    cases ys with
    | nil => exact absurd (List.cons.inj heq).1.symm hcomma
    | cons y ys =>
      have hitems := (List.cons.inj (List.cons.inj heq).2).2
      obtain ⟨rfl, hrest⟩ := h.inj x List.mem_cons_self y List.mem_cons_self _ _
        (closes_behind hclose write r xs) (closes_behind hclose write s ys) hitems
      obtain ⟨rfl, rfl⟩ := ih h.tail hrest
      exact ⟨rfl, rfl⟩

theorem bracketed_inj (hclose : close = ']' ∨ close = '\x7d') (h : Apart write close xs ys)
    {opening : Codepoint} (heq : bracketed opening close (xs.map write) ++ r =
      bracketed opening close (ys.map write) ++ s) : xs = ys ∧ r = s := by
  cases xs with
  | nil =>
    cases ys with
    | nil => exact ⟨rfl, (List.cons.inj (List.cons.inj heq).2).2⟩
    | cons y ys =>
      rw [bracketed_cons_append] at heq
      exact absurd (List.cons.inj heq).2.symm (h.right y List.mem_cons_self _ _)
  | cons x xs =>
    rw [bracketed_cons_append] at heq
    cases ys with
    | nil => exact absurd (List.cons.inj heq).2 (h.left x List.mem_cons_self _ _)
    | cons y ys =>
      rw [bracketed_cons_append] at heq
      obtain ⟨rfl, hrest⟩ := h.inj x List.mem_cons_self y List.mem_cons_self _ _
        (closes_behind hclose write r xs) (closes_behind hclose write s ys) (List.cons.inj heq).2
      obtain ⟨rfl, rfl⟩ := h.tail.behind_inj hclose hrest
      exact ⟨rfl, rfl⟩

end Apart

/-! ### Literals -/

/-- No literal begins with a closing bracket. -/
theorem literal_append_ne (hd : d.Of literalKinds) (hclose : frontKind? close = none)
    (r s : List Codepoint) : d.literal.toList ++ r ≠ close :: s := by
  obtain ⟨c, cs, hcs, hkind⟩ := exists_literal_cons hd
  rw [hcs]
  rintro heq
  rw [(List.cons.inj heq).1, hclose] at hkind
  cases hkind

theorem literalSlot_append (k : Text) (d : Datum) (r : List Codepoint) :
    (literalSlot (k, d)).toList ++ r =
      Text.quoted k.toList ++ (.ofChar ':' :: .ofChar ' ' :: (d.literal.toList ++ r)) := by
  rw [literalSlot, Text.toList_append, Text.toList_append, List.append_assoc, List.append_assoc]
  rfl

theorem literalSlot_append_ne (e : Text × Datum) (r s : List Codepoint) :
    (literalSlot e).toList ++ r ≠ .ofChar '\x7d' :: s := by
  obtain ⟨k, d⟩ := e
  rw [literalSlot_append]
  intro heq
  have hquote : Text.quoteFor k.toList = .ofChar '\x7d' := (List.cons.inj heq).1
  rcases Text.quoteFor_eq k.toList with h | h <;> exact absurd (h.symm.trans hquote) (by decide)

/-- A literal tells the datum and where it ends. -/
theorem literal_append_inj (hd : d.Of literalKinds) (he : e.Of literalKinds) (hr : Closes r)
    (hs : Closes s) (h : d.literal.toList ++ r = e.literal.toList ++ s) : d = e ∧ r = s := by
  have hkind := kind_eq_of_append hd he h
  induction hd generalizing e r s with
  | undefined hmem => exact absurd hmem (by decide)
  | null =>
    cases he with
    | null => exact ⟨rfl, List.append_cancel_left h⟩
    | _ => cases hkind
  | bool _ b =>
    cases he with
    | bool _ b' =>
      cases b <;> cases b'
      · exact ⟨rfl, List.append_cancel_left h⟩
      · exact absurd (List.cons.inj h).1 (by decide)
      · exact absurd (List.cons.inj h).1 (by decide)
      · exact ⟨rfl, List.append_cancel_left h⟩
    | _ => cases hkind
  | int _ i =>
    cases he with
    | int _ j =>
      have hread := congrArg Json.number h
      have hi := Json.number_int i hr
      have hj := Json.number_int j hs
      rw [literal, literal, hi, hj] at hread
      obtain ⟨⟨⟩, rfl⟩ := Prod.mk.inj (Option.some.inj hread)
      exact ⟨rfl, rfl⟩
    | _ => cases hkind
  | float hmem => exact absurd hmem (by decide)
  | string _ t =>
    cases he with
    | string _ u =>
      obtain ⟨htext, rfl⟩ := Text.quoted_append_inj h
      exact ⟨congrArg string (Text.toList_injective htext), rfl⟩
    | _ => cases hkind
  | @array _ items hitems ih =>
    cases he with
    | @array _ items' hitems' =>
      have hapart : Apart (fun d : Datum => d.literal.toList) ']' items items' :=
        ⟨fun d hd e he r s hr hs h => ih d hd (hitems' e he) hr hs h
            (kind_eq_of_append (hitems d hd) (hitems' e he) h),
          fun d hd => literal_append_ne (hitems d hd) rfl,
          fun e he => literal_append_ne (hitems' e he) rfl⟩
      rw [toList_literal_array, toList_literal_array] at h
      obtain ⟨rfl, rfl⟩ := hapart.bracketed_inj (.inl rfl) h
      exact ⟨rfl, rfl⟩
    | _ => cases hkind
  | @object _ slots hslots ih =>
    cases he with
    | @object _ slots' hslots' =>
      have hapart : Apart (fun e => (literalSlot e).toList) '\x7d' slots slots' := by
        refine ⟨?_, fun e _ => literalSlot_append_ne e, fun e _ => literalSlot_append_ne e⟩
        rintro ⟨k, d⟩ hd ⟨k', e⟩ he r s hr hs h
        rw [literalSlot_append, literalSlot_append] at h
        obtain ⟨hname, hrest⟩ := Text.quoted_append_inj h
        have hvalue := (List.cons.inj (List.cons.inj hrest).2).2
        obtain ⟨rfl, rfl⟩ := ih (k, d) hd (hslots' (k', e) he) hr hs hvalue
          (kind_eq_of_append (hslots (k, d) hd) (hslots' (k', e) he) hvalue)
        exact ⟨Prod.ext (Text.toList_injective hname) rfl, rfl⟩
      rw [toList_literal_object, toList_literal_object] at h
      obtain ⟨rfl, rfl⟩ := hapart.bracketed_inj (.inr rfl) h
      exact ⟨rfl, rfl⟩
    | _ => cases hkind
  | function hmem => exact absurd hmem (by decide)

theorem literal_inj (hd : d.Of literalKinds) (he : e.Of literalKinds) :
    d.literal = e.literal ↔ d = e := by
  refine ⟨fun h => (literal_append_inj hd he closes_nil closes_nil ?_).1, fun h => by rw [h]⟩
  rw [h]

end Datum

namespace Eval
open Datum (literalKinds)
variable {st st' : Store} {v w : Value} {d e : Datum}

/-- An array or an object is printed as its literal. -/
theorem leads_output (hv : st.datum? v = some d) (hkind : v.kind = .array ∨ v.kind = .object) :
    Leads (output v) st (.text d.literal) st := by
  have hd := Store.kind_of_datum? hv
  have htext : d.text = d.literal := by
    cases d with
    | string s => rcases hkind with h | h <;> cases hd.trans h
    | _ => rfl
  have htextOf : Leads (textOf v) st d.literal st := htext ▸ (leads_datum hv).bind (.pure _ _)
  have hprint : Leads (do return Flow.text (← textOf v)) st (.text d.literal) st :=
    htextOf.bind (.pure _ _)
  cases v with
  | array items => exact hprint
  | object r => exact hprint
  | _ => rcases hkind with h | h <;> cases h

/-- Printed arrays and objects are unambiguous: of what is built from null, truth values, integers and
strings by arrays and objects, no two values have a literal in common unless they are the same
throughout, with the names of objects in the same order; nor are two arrays or objects printed
alike. -/
theorem containers_print_alike (hv : st.datum? v = some d) (hw : st'.datum? w = some e)
    (hd : d.Of literalKinds) (he : e.Of literalKinds) :
    (d.literal = e.literal ↔ d = e) ∧
    (v.kind = .array ∨ v.kind = .object → w.kind = .array ∨ w.kind = .object →
      ((output v).result st = (output w).result st' ↔ d = e)) := by
  have hliteral := Datum.literal_inj hd he
  refine ⟨hliteral, fun hvkind hwkind => ?_⟩
  rw [(leads_output hv hvkind).result, (leads_output hw hwkind).result, ← hliteral,
    Except.ok.injEq, Flow.text.injEq]

/-- A string that holds a separator and quotes of both kinds is not taken for two strings. -/
theorem separator_in_string_prints_apart :
    (output (.array [.string "', \""])).result .initial ≠
      (output (.array [.string "", .string ""])).result .initial := by
  have hone : Store.initial.datum? (.array [.string "', \""]) = some (.array [.string "', \""]) := rfl
  have htwo : Store.initial.datum? (.array [.string "", .string ""]) =
      some (.array [.string "", .string ""]) := rfl
  have happly := containers_print_alike hone htwo
    (.array (by decide) (by simpa using .string (by decide) _))
    (.array (by decide) (by simpa using .string (by decide) _))
  exact fun h => nomatch (happly.2 (.inl rfl) (.inl rfl)).mp h

end Eval
end ChatTemplate
