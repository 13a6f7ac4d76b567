import ChatTemplate.Proofs.Json.Scalars
import Mathlib.Data.List.Forall2

/-!
# Values are read back from JSON

However it is indented, the text of a datum without functions and decimals (`Datum.Plain`) is read
back as what the host gets for the datum (`Json.read?_json`). What an indent adds between brackets
and items are blanks, which the reader skips; a text nests no deeper than it is long.
-/

namespace ChatTemplate

/-- Built from constants, integers and strings by arrays, and objects in which no name stands
twice. -/
inductive Datum.Plain : Datum → Prop
  | undefined : Plain .undefined
  | null : Plain .null
  | bool (b : Bool) : Plain (.bool b)
  | int (i : Int) : Plain (.int i)
  | string (s : Text) : Plain (.string s)
  | array {items : List Datum} (hitems : ∀ d ∈ items, Plain d) : Plain (.array items)
  | object {slots : List (Text × Datum)} (hnames : (Slots.names slots).Nodup)
      (hslots : ∀ e ∈ slots, Plain e.2) : Plain (.object slots)

namespace Datum
variable {unit : Option (List Codepoint)} {level : Nat}

theorem jsonItems_eq_map (ds : List Datum) :
    jsonItems unit level ds = ds.map (json unit level) := by
  induction ds with
  | nil => rfl
  | cons d ds ih => rw [jsonItems, ih, List.map_cons]

theorem jsonSlots_eq_map (es : List (Text × Datum)) :
    jsonSlots unit level es = es.map (jsonSlot unit level) := by
  induction es with
  | nil => rfl
  | cons e es ih => rw [jsonSlots, ih, List.map_cons]

theorem toHostItems_eq_map (ds : List Datum) : toHostItems ds = ds.map toHost := by
  induction ds with
  | nil => rfl
  | cons d ds ih => rw [toHostItems, ih, List.map_cons]

theorem toHostSlots_eq_map (es : List (Text × Datum)) : toHostSlots es = es.map toHostSlot := by
  induction es with
  | nil => rfl
  | cons e es ih => rw [toHostSlots, ih, List.map_cons]

theorem anyHasFunction_eq_any (ds : List Datum) : anyHasFunction ds = ds.any hasFunction := by
  induction ds with
  | nil => rfl
  | cons d ds ih => rw [anyHasFunction, ih, List.any_cons]

theorem anySlotHasFunction_eq_any (es : List (Text × Datum)) :
    anySlotHasFunction es = es.any fun e => e.2.hasFunction := by
  induction es with
  | nil => rfl
  | cons e es ih => rw [anySlotHasFunction, slotHasFunction, ih, List.any_cons]

theorem Plain.hasFunction_eq_false {d : Datum} (h : d.Plain) : d.hasFunction = false := by
  induction h with
  | undefined | null | bool b | int i | string s => rfl
  | array _ ih => rw [hasFunction, anyHasFunction_eq_any]; simpa using ih
  | object _ _ ih =>
    rw [hasFunction, anySlotHasFunction_eq_any]
    exact List.any_eq_false.mpr fun e he => by simp [ih e he]

end Datum

theorem Slots.put_of_not_mem {κ α : Type} [DecidableEq κ] {s : Slots κ α} {name : κ}
    (h : name ∉ s.names) (x : α) : s.put name x = s ++ [(name, x)] := by
  induction s with
  | nil => rfl
  | cons e s ih =>
    obtain ⟨hne, hmem⟩ := not_or.mp (mt List.mem_cons.mpr h)
    rw [put, if_neg (Ne.symm hne), ih hmem, List.cons_append]

/-- Names that are all new keep their order. -/
theorem Slots.putAll_of_nodup {κ α : Type} [DecidableEq κ] (s : Slots κ α) {es : List (κ × α)}
    (h : (s.names ++ Slots.names es).Nodup) : s.putAll es = s ++ es := by
  induction es generalizing s with
  | nil => exact (List.append_nil s).symm
  | cons e es ih =>
    have hnew : e.1 ∉ s.names := fun hmem =>
      (List.nodup_append.mp h).2.2 _ hmem _ List.mem_cons_self rfl
    have hput := put_of_not_mem hnew e.2
    show (s.put e.1 e.2).putAll es = _
    rw [hput, ih _ (by simpa [Slots.names] using h), List.append_assoc, List.singleton_append]

namespace Json
open Datum
variable {α : Type} {unit : Option (List Codepoint)} {level : Nat} {c close : Codepoint}
  {gap rest : List Codepoint}

/-! ### Gaps -/

/-- An indentation is blank. -/
def IsBlank (unit : Option (List Codepoint)) : Prop := ∀ u ∈ unit, ∀ c ∈ u, isSpace c

/-- The text begins like a value: with no blank and no closing bracket. -/
def Opens (text : List Codepoint) : Prop :=
  ∃ c cs, text = c :: cs ∧ isSpace c = false ∧ c ≠ ']' ∧ c ≠ '\x7d'

theorem Opens.length_pos {text : List Codepoint} (h : Opens text) : 0 < text.length := by
  obtain ⟨c, cs, rfl, -⟩ := h
  exact Nat.succ_pos _

theorem isSpace_jsonBreak (hunit : IsBlank unit) (level : Nat) :
    ∀ c ∈ jsonBreak unit level, isSpace c := by
  cases unit with
  | none => exact fun _ h => nomatch h
  | some u =>
    intro c hc
    rcases List.mem_cons.mp hc with rfl | hc
    · decide
    · obtain ⟨line, hline, hc⟩ := List.mem_flatten.mp hc
      exact hunit u rfl c (List.eq_of_mem_replicate hline ▸ hc)

theorem skipSpaces_append (hgap : ∀ c ∈ gap, isSpace c) (hc : isSpace c = false)
    (rest : List Codepoint) : skipSpaces (gap ++ c :: rest) = some ((), c :: rest) := by
  rw [skipSpaces, List.dropWhile_append_of_pos hgap, List.dropWhile_cons_of_neg (by simp [hc])]

theorem skipSpaces_cons (hc : isSpace c = false) (rest : List Codepoint) :
    skipSpaces (c :: rest) = some ((), c :: rest) := by
  rw [skipSpaces, List.dropWhile_cons_of_neg (by simp [hc])]

theorem closes_break (hclose : close = ']' ∨ close = '\x7d') (unit : Option (List Codepoint))
    (level : Nat) (rest : List Codepoint) : Closes (jsonBreak unit level ++ close :: rest) := by
  cases unit with
  | none => exact closes_cons (by tauto) rest
  | some u => exact closes_cons (.inr (.inr (.inr rfl))) _

/-! ### Groups -/

/-- Items with commas between them are read up to their closing bracket. -/
theorem list_reads {item : Reader α} (hclose : close = ']' ∨ close = '\x7d')
    (hunit : IsBlank unit) (inner outer : Nat) {texts : List (List Codepoint)} {values : List α}
    (hitems : List.Forall₂ (fun t a => Opens t ∧ Reads item t a) texts values) (hne : texts ≠ [])
    {n : Nat} (hn : texts.length ≤ n) (rest : List Codepoint) :
    list close item n ((texts.intersperse (jsonComma unit inner)).flatten ++
      (jsonBreak unit outer ++ close :: rest)) = some (values, rest) := by
  have hsolid : isSpace close = false := by rcases hclose with rfl | rfl <;> decide
  induction hitems generalizing n with
  | nil => exact absurd rfl hne
  | @cons t a texts values hitem hitems ih =>
    obtain ⟨n, rfl⟩ := Nat.exists_eq_succ_of_ne_zero (Nat.ne_of_gt (Nat.lt_of_lt_of_le
      (Nat.succ_pos _) hn))
    cases hitems with
    | nil =>
      rw [List.intersperse_singleton, List.flatten_singleton, list,
        bind_eq (hitem.2 _ (closes_break hclose unit outer rest)),
        bind_eq (skipSpaces_append (isSpace_jsonBreak hunit outer) hsolid rest),
        bind_eq (accept_self close rest)]
      rfl
    | @cons t' a' texts values hitem' hitems =>
      obtain ⟨c, cs, rfl, hc, -, -⟩ := hitem'.1
      have hcomma : Codepoint.ofChar ',' ≠ close := by rcases hclose with rfl | rfl <;> decide
      have hgap : ∀ c ∈ (jsonComma unit inner).tail, isSpace c := by
        cases unit with
        | none => exact fun c hc => List.mem_singleton.mp hc ▸ (by decide)
        | some u => exact isSpace_jsonBreak hunit inner
      have hrest := ih (List.cons_ne_nil _ _) (Nat.le_of_succ_le_succ hn)
      generalize hafter : ((((c :: cs) :: texts).intersperse (jsonComma unit inner)).flatten ++
        (jsonBreak unit outer ++ close :: rest)) = after at hrest
      obtain ⟨after, rfl⟩ : ∃ cs', after = c :: cs' := by
        cases texts <;> exact ⟨_, hafter.symm⟩
      have htext : ((t :: (c :: cs) :: texts).intersperse (jsonComma unit inner)).flatten ++
          (jsonBreak unit outer ++ close :: rest) =
          t ++ Codepoint.ofChar ',' :: ((jsonComma unit inner).tail ++ c :: after) := by
        rw [← hafter, List.intersperse_cons_cons, List.flatten_cons, List.flatten_cons,
          List.append_assoc, List.append_assoc]
        rfl
      rw [htext, list, bind_eq (hitem.2 _ (closes_cons (.inl rfl) _)),
        bind_eq (skipSpaces_cons (by decide) _), bind_eq (accept_of_ne hcomma _)]
      exact (bind_eq (expect_self _ _)).trans <|
        (bind_eq (skipSpaces_append hgap hc after)).trans (bind_eq hrest)

theorem length_le_flatten_intersperse (sep : List Codepoint) {texts : List (List Codepoint)}
    {t : List Codepoint} (ht : t ∈ texts) : t.length ≤ (texts.intersperse sep).flatten.length := by
  induction texts with
  | nil => cases ht
  | cons t' texts ih =>
    cases texts with
    | nil =>
      cases List.mem_singleton.mp ht
      simp
    | cons t'' texts =>
      rw [List.intersperse_cons_cons, List.flatten_cons, List.flatten_cons, List.length_append,
        List.length_append]
      rcases List.mem_cons.mp ht with rfl | ht
      · omega
      · have := ih ht
        omega

theorem length_le_intersperse (sep : List Codepoint) {texts : List (List Codepoint)}
    (hopens : ∀ t ∈ texts, Opens t) : texts.length ≤ (texts.intersperse sep).flatten.length := by
  induction texts with
  | nil => exact Nat.zero_le _
  | cons t texts ih =>
    obtain ⟨c, cs, rfl, -⟩ := hopens t List.mem_cons_self
    have hrest := ih fun t ht => hopens t (List.mem_cons_of_mem _ ht)
    cases texts with
    | nil => simp
    | cons t' texts =>
      rw [List.intersperse_cons_cons, List.flatten_cons, List.flatten_cons, List.length_append,
        List.length_append]
      simp only [List.length_cons] at hrest ⊢
      omega

theorem length_lt_jsonGroup (opening closing : Codepoint) (unit : Option (List Codepoint))
    (level : Nat) {texts : List (List Codepoint)}
    {t : List Codepoint} (ht : t ∈ texts) :
    t.length < (jsonGroup opening closing unit level texts).length := by
  have hle := length_le_flatten_intersperse (jsonComma unit (level + 1)) ht
  cases texts with
  | nil => cases ht
  | cons t' texts =>
    simp only [jsonGroup, List.length_cons, List.length_append]
    omega

/-- A group is read back after its opening bracket. -/
theorem group_reads {item : Reader α} (opening : Codepoint) (level : Nat) (hclose : close = ']' ∨ close = '\x7d')
    (hunit : IsBlank unit) {texts : List (List Codepoint)} {values : List α}
    (hitems : List.Forall₂ (fun t a => Opens t ∧ Reads item t a) texts values) :
    ∃ inside, jsonGroup opening close unit level texts = opening :: inside ∧
      ∀ rest, group close item (inside ++ rest) = some (values, rest) := by
  have hsolid : isSpace close = false := by rcases hclose with rfl | rfl <;> decide
  have hopens : ∀ t ∈ texts, Opens t := fun t ht => by
    obtain ⟨i, hi, rfl⟩ := List.mem_iff_getElem.mp ht
    exact (hitems.get hi (hitems.length_eq ▸ hi)).1
  cases hitems with
  | nil =>
    refine ⟨[close], rfl, fun rest => ?_⟩
    exact (bind_eq (skipSpaces_cons hsolid rest)).trans (bind_eq (accept_self close rest))
  | @cons t a texts values hitem hitems =>
    obtain ⟨c, cs, rfl, hc, hsquare, hbrace⟩ := hitem.1
    have hne : c ≠ close := by rcases hclose with rfl | rfl <;> assumption
    refine ⟨jsonBreak unit (level + 1) ++ (((c :: cs) :: texts).intersperse
        (jsonComma unit (level + 1))).flatten ++ jsonBreak unit level ++ [close], rfl,
      fun rest => ?_⟩
    have hlength : ((c :: cs) :: texts).length ≤
        ((((c :: cs) :: texts).intersperse (jsonComma unit (level + 1))).flatten ++
          (jsonBreak unit level ++ close :: rest)).length := by
      rw [List.length_append]
      exact Nat.le_add_right_of_le (length_le_intersperse _ hopens)
    have hread := list_reads hclose hunit (level + 1) level (.cons hitem hitems)
      (List.cons_ne_nil _ _) hlength rest
    generalize hafter : ((((c :: cs) :: texts).intersperse (jsonComma unit (level + 1))).flatten ++
      (jsonBreak unit level ++ close :: rest)) = after at hread
    obtain ⟨after, rfl⟩ : ∃ cs', after = c :: cs' := by
      cases texts <;> exact ⟨_, hafter.symm⟩
    have htext : jsonBreak unit (level + 1) ++ (((c :: cs) :: texts).intersperse
        (jsonComma unit (level + 1))).flatten ++ jsonBreak unit level ++ [close] ++ rest =
        jsonBreak unit (level + 1) ++ c :: after := by
      rw [← hafter]
      simp only [List.append_assoc, List.singleton_append]
    rw [htext, group, bind_eq (skipSpaces_append (isSpace_jsonBreak hunit (level + 1)) hc after),
      bind_eq (accept_of_ne hne after)]
    exact hread

/-! ### Values -/

/-- What is read is told by its first code point. -/
theorem valueWithin_cons (n : Nat) (c : Codepoint) (rest : List Codepoint) :
    valueWithin (n + 1) (c :: rest) =
      if c = '"' then (string (c :: rest)).map fun (s, rest) => (.string s, rest)
      else if c = '[' then
        (group ']' (valueWithin n) rest).map fun (items, rest) => (.list items, rest)
      else if c = '\x7b' then
        (group '\x7d' (entry (valueWithin n)) rest).map fun (entries, rest) => (object entries, rest)
      else scalar (c :: rest) := by
  have hget : (get : Reader (List Codepoint)) (c :: rest) = some (c :: rest, c :: rest) := rfl
  rw [valueWithin, bind_eq hget]
  by_cases hquote : c = '"'
  · rw [if_pos hquote, if_pos (by rw [hquote]; rfl)]
    show (string (c :: rest)).bind _ = _
    cases string (c :: rest) <;> rfl
  rw [if_neg hquote, if_neg (by simpa using hquote)]
  by_cases hsquare : c = '['
  · rw [if_pos hsquare, hsquare, bind_eq (accept_self _ _)]
    show (group ']' (valueWithin n) rest).bind _ = _
    cases group ']' (valueWithin n) rest <;> rfl
  rw [if_neg hsquare, bind_eq (accept_of_ne hsquare rest), if_neg Bool.false_ne_true]
  by_cases hbrace : c = '\x7b'
  · rw [if_pos hbrace, hbrace, bind_eq (accept_self _ _)]
    show (group '\x7d' (entry (valueWithin n)) rest).bind _ = _
    cases group '\x7d' (entry (valueWithin n)) rest <;> rfl
  rw [if_neg hbrace, bind_eq (accept_of_ne hbrace rest)]
  rfl

theorem opens_jsonString (s : Text) (rest : List Codepoint) : Opens (jsonString s ++ rest) :=
  ⟨.ofChar '"', _, rfl, by decide, by decide, by decide⟩

theorem opens_jsonGroup {opening : Codepoint} (hopening : opening = '[' ∨ opening = '\x7b')
    (close : Codepoint) (texts : List (List Codepoint)) :
    Opens (jsonGroup opening close unit level texts) := by
  obtain ⟨inside, h⟩ : ∃ inside, jsonGroup opening close unit level texts = opening :: inside := by
    cases texts <;> exact ⟨_, rfl⟩
  refine ⟨opening, inside, h, ?_⟩
  rcases hopening with rfl | rfl <;> decide

/-- An integer begins with a minus or a digit. -/
theorem exists_toString_int_cons (i : Int) : ∃ c cs, Text.toList (toString i) = c :: cs ∧
    (c = '-' ∨ Text.isDigit c) := by
  obtain ⟨d, ds, hcons, hd⟩ := exists_decimal_cons i.natAbs
  rw [toList_toString_int, hcons, sign]
  split
  · exact ⟨_, _, rfl, .inl rfl⟩
  · exact ⟨_, _, rfl, .inr hd⟩

theorem ne_of_isDigit {d : Codepoint} (hd : Text.isDigit d) (hc : Text.isDigit c = false) : d ≠ c := by
  rintro rfl
  simp [hd] at hc

theorem opens_int (i : Int) : Opens (Text.toList (toString i)) := by
  obtain ⟨c, cs, h, hc⟩ := exists_toString_int_cons i
  refine ⟨c, cs, h, ?_⟩
  rcases hc with rfl | hc
  · decide
  · refine ⟨?_, ne_of_isDigit hc (by decide), ne_of_isDigit hc (by decide)⟩
    simp only [isSpace, Bool.or_eq_false_iff]
    refine ⟨⟨⟨?_, ?_⟩, ?_⟩, ?_⟩ <;> exact beq_false_of_ne (ne_of_isDigit hc (by decide))

theorem opens_json (unit : Option (List Codepoint)) (level : Nat) {d : Datum} (h : d.Plain) :
    Opens (d.json unit level) := by
  cases h with
  | undefined => exact ⟨.ofChar 'n', _, rfl, by decide, by decide, by decide⟩
  | null => exact ⟨.ofChar 'n', _, rfl, by decide, by decide, by decide⟩
  | bool b => cases b <;> exact ⟨_, _, rfl, by decide, by decide, by decide⟩
  | int i => exact opens_int i
  | string s => simpa [json] using opens_jsonString s []
  | array _ => rw [json]; exact opens_jsonGroup (.inl rfl) _ _
  | object _ _ => rw [json]; exact opens_jsonGroup (.inr rfl) _ _

theorem reads_slot {value : Reader HostValue} {e : Text × Datum}
    (h : Reads value (e.2.json unit level) e.2.toHost) (hopens : Opens (e.2.json unit level)) :
    Reads (entry value) (jsonSlot unit level e) (e.1, e.2.toHost) := by
  intro rest hrest
  obtain ⟨c, cs, hcons, hc, -⟩ := hopens
  have hread := h rest hrest
  rw [hcons] at hread
  have htext : jsonSlot unit level e ++ rest =
      jsonString e.1 ++ Codepoint.ofChar ':' :: ([Codepoint.ofChar ' '] ++ c :: (cs ++ rest)) := by
    rw [jsonSlot, hcons, List.append_assoc, List.append_assoc]
    rfl
  rw [htext, entry, bind_eq (string_jsonString _ _), bind_eq (skipSpaces_cons (by decide) _),
    bind_eq (expect_self _ _), bind_eq (skipSpaces_append (by simp [isSpace]) hc _)]
  exact bind_eq hread

theorem object_of_nodup {slots : List (Text × Datum)} (h : (Slots.names slots).Nodup) :
    object (slots.map fun e => (e.1, e.2.toHost)) = .map (slots.map toHostSlot) := by
  have hnames : Slots.names (slots.map fun e => (e.1, e.2.toHost)) = Slots.names slots :=
    List.map_map
  rw [object, Slots.putAll_of_nodup [] (by rw [hnames]; exact h), List.nil_append, List.map_map]
  exact congrArg HostValue.map (List.map_congr_left fun e _ => (toHostSlot.eq_def e).symm)

/-- However it is indented, the text of a datum is read back, if it may nest as deep as it is long. -/
theorem reads_json {d : Datum} (h : d.Plain) (hunit : IsBlank unit) (level : Nat) {n : Nat}
    (hn : (d.json unit level).length ≤ n + 1) :
    Reads (valueWithin (n + 1)) (d.json unit level) d.toHost := by
  intro rest hrest
  induction h generalizing level n rest with
  | undefined => exact (valueWithin_cons n _ _).trans (scalar_null rest)
  | null => exact (valueWithin_cons n _ _).trans (scalar_null rest)
  | bool b =>
    cases b with
    | false => exact (valueWithin_cons n _ _).trans (scalar_bool false rest)
    | true => exact (valueWithin_cons n _ _).trans (scalar_bool true rest)
  | int i =>
    obtain ⟨c, cs, hcons, hc⟩ := exists_toString_int_cons i
    have hread := scalar_int i hrest
    rw [json]
    rw [hcons] at hread ⊢
    have hne {e : Codepoint} (he : Text.isDigit e = false) (hminus : e ≠ '-') : c ≠ e := by
      rcases hc with rfl | hc
      · exact hminus.symm
      · exact ne_of_isDigit hc he
    rw [List.cons_append, valueWithin_cons, if_neg (hne (by decide) (by decide)),
      if_neg (hne (by decide) (by decide)), if_neg (hne (by decide) (by decide))]
    exact hread
  | string s =>
    have hread := string_jsonString s rest
    refine (valueWithin_cons n (.ofChar '"') _).trans ?_
    rw [if_pos rfl]
    exact congrArg _ hread
  | @array items hitems ih =>
    rw [json, jsonItems_eq_map] at hn ⊢
    have hreads : List.Forall₂ (fun t h => Opens t ∧ Reads (valueWithin n) t h)
        (items.map (json unit (level + 1))) (items.map toHost) := by
      refine List.forall₂_map_left_iff.mpr (List.forall₂_map_right_iff.mpr
        (List.forall₂_same.mpr fun d hd => ⟨opens_json _ _ (hitems d hd), ?_⟩))
      have hmem : d.json unit (level + 1) ∈ items.map (json unit (level + 1)) :=
        List.mem_map_of_mem hd
      have hlt := length_lt_jsonGroup '[' ']' unit level hmem
      have hpos := (opens_json unit (level + 1) (hitems d hd)).length_pos
      obtain ⟨m, rfl⟩ : ∃ m, n = m + 1 := ⟨n - 1, by omega⟩
      exact fun rest hrest => ih d hd (level + 1) (by omega) rest hrest
    obtain ⟨inside, hinside, hread⟩ := group_reads '[' level (.inl rfl) hunit hreads
    rw [hinside, List.cons_append, valueWithin_cons, if_neg (by decide), if_pos rfl, hread rest,
      toHost, toHostItems_eq_map]
    rfl
  | @object slots hnames hslots ih =>
    rw [json, jsonSlots_eq_map] at hn ⊢
    have hreads : List.Forall₂ (fun t h => Opens t ∧ Reads (entry (valueWithin n)) t h)
        (slots.map (jsonSlot unit (level + 1))) (slots.map fun e => (e.1, e.2.toHost)) := by
      refine List.forall₂_map_left_iff.mpr (List.forall₂_map_right_iff.mpr
        (List.forall₂_same.mpr fun e he => ?_))
      have hopens := opens_json unit (level + 1) (hslots e he)
      have hmem : jsonSlot unit (level + 1) e ∈ slots.map (jsonSlot unit (level + 1)) :=
        List.mem_map_of_mem he
      have hlt := length_lt_jsonGroup '\x7b' '\x7d' unit level hmem
      rw [jsonSlot, List.length_append] at hlt
      have hpos := hopens.length_pos
      obtain ⟨m, rfl⟩ : ∃ m, n = m + 1 := ⟨n - 1, by omega⟩
      refine ⟨?_, reads_slot ?_ hopens⟩
      · rw [jsonSlot, List.append_assoc]
        exact opens_jsonString e.1 _
      exact fun rest hrest => ih e he (level + 1) (by omega) rest hrest
    obtain ⟨inside, hinside, hread⟩ := group_reads '\x7b' level (.inr rfl) hunit hreads
    rw [hinside, List.cons_append, valueWithin_cons, if_neg (by decide), if_neg (by decide),
      if_pos rfl, hread rest, toHost, toHostSlots_eq_map]
    exact congrArg (fun h => some (h, rest)) (object_of_nodup hnames)

/-- The text of a datum is JSON for what the host gets for it. -/
theorem read?_json {d : Datum} (h : d.Plain) (hunit : IsBlank unit) :
    read? (.ofList (d.json unit 0)) = some d.toHost := by
  obtain ⟨c, cs, hcons, hc, -⟩ := opens_json unit 0 h
  have hlength : (d.json unit 0).length ≤ cs.length + 1 := by
    rw [hcons]
    rfl
  have hread := reads_json h hunit 0 hlength [] closes_nil
  rw [List.append_nil, hcons] at hread
  rw [read?, Text.toList_ofList, hcons, List.dropWhile_cons_of_neg (by simp [hc]),
    List.length_cons, hread]
  rfl

end Json
end ChatTemplate
