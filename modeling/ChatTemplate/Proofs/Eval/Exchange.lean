import ChatTemplate.Proofs.Datum.Parts
import ChatTemplate.Proofs.Eval.Growth
import ChatTemplate.Proofs.Eval.Pairing
import ChatTemplate.Proofs.Eval.Steps
import ChatTemplate.Proofs.Store.Saturation

/-!
# Values through JSON and the host

What the host gets for a value, taken over again, is a copy of it in which nothing is undefined
(`Eval.ofHost_toHost`). As JSON is read back as what the host gets, the filter that writes it loses
nothing else (`Eval.toJsonFilter_roundTrip`).
-/

namespace ChatTemplate

namespace Datum

mutual

/-- The datum with null for what is undefined in it. -/
def nulled : Datum → Datum
  | .undefined => .null
  | .array items => .array (nulledItems items)
  | .object slots => .object (nulledSlots slots)
  | d => d

def nulledItems : List Datum → List Datum
  | [] => []
  | d :: ds => nulled d :: nulledItems ds

def nulledSlots : List (Text × Datum) → List (Text × Datum)
  | [] => []
  | e :: es => nulledSlot e :: nulledSlots es

def nulledSlot : Text × Datum → Text × Datum
  | (k, d) => (k, nulled d)

end

theorem nulledItems_eq_map (ds : List Datum) : nulledItems ds = ds.map nulled := by
  induction ds with
  | nil => rfl
  | cons d ds ih => rw [nulledItems, ih, List.map_cons]

theorem nulledSlots_eq_map (es : List (Text × Datum)) : nulledSlots es = es.map nulledSlot := by
  induction es with
  | nil => rfl
  | cons e es ih => rw [nulledSlots, ih, List.map_cons]

theorem names_nulledSlots (es : List (Text × Datum)) :
    Slots.names (es.map nulledSlot) = Slots.names es := by
  rw [Slots.names, List.map_map]
  exact List.map_congr_left fun e _ => by rw [Function.comp_apply, nulledSlot.eq_def]

end Datum

namespace Eval
variable {st : Store}

/-- In every later store the value spells `d`, with at most `k` objects inside each other. -/
def Spells (st : Store) (k : Nat) (v : Value) (d : Datum) : Prop :=
  ∀ st', st.Keeps st' → ∀ n, k ≤ n → st'.datumWith (st'.objectWithin n) v = some d

/-- What is taken over spells `d`, with no more objects inside each other than are new. -/
def TakesOver (h : HostValue) (d : Datum) : Prop :=
  ∀ st, ∃ v st', Leads (ofHost h) st v st' ∧ Spells st' (st'.objects.size - st.objects.size) v d

theorem TakesOver.of_pure {h : HostValue} {v : Value} {d : Datum} (hof : ofHost h = pure v)
    (hdatum : ∀ st object?, Store.datumWith st object? v = some d) : TakesOver h d :=
  fun st => ⟨v, st, hof ▸ .pure v st, fun st' _ _ _ => hdatum st' _⟩

theorem Leads.keeps_ofHost {h : HostValue} {v : Value} {st' : Store} (hh : Leads (ofHost h) st v st') :
    st.Keeps st' :=
  hh.after ▸ (Adds.ofHost h st).toKeeps

theorem ofHostItems_spell {hs : List HostValue} {ds : List Datum} (h : List.Forall₂ TakesOver hs ds)
    (st : Store) : ∃ vs st', Leads (ofHostItems hs) st vs st' ∧ st.Keeps st' ∧
      ∀ st'', st'.Keeps st'' → ∀ n, st'.objects.size - st.objects.size ≤ n →
        st''.dataWith (st''.objectWithin n) vs = some ds := by
  induction h generalizing st with
  | nil => exact ⟨[], st, .pure [] st, .refl st, fun _ _ _ _ => rfl⟩
  | cons head _ ih =>
    obtain ⟨v, st₁, hv, hspells⟩ := head st
    obtain ⟨vs, st₂, hvs, hkeeps, hrest⟩ := ih st₁
    refine ⟨v :: vs, st₂, hv.bind (hvs.bind (.pure _ _)), hv.keeps_ofHost.trans hkeeps,
      fun st'' hst'' n hn => ?_⟩
    have hsize := hv.keeps_ofHost.objects_size_le
    have hsize' := hkeeps.objects_size_le
    rw [Store.dataWith, hspells st'' (hkeeps.trans hst'') n (by omega),
      hrest st'' hst'' n (by omega)]
    rfl

/-- The entries become slots under their names, in the same order. -/
def TakesOverEntries (es : List (HostKey × HostValue)) (slots : List (Text × Datum)) : Prop :=
  List.Forall₂ (fun e x => e.1.name = x.1 ∧ TakesOver e.2 x.2) es slots

theorem ofHostEntries_spell {es : List (HostKey × HostValue)} {slots : List (Text × Datum)}
    (h : TakesOverEntries es slots) (st : Store) :
    ∃ entries st', Leads (ofHostEntries es) st entries st' ∧ st.Keeps st' ∧
      ∀ st'', st'.Keeps st'' → ∀ n, st'.objects.size - st.objects.size ≤ n →
        Slots.Related (fun v d => st''.datumWith (st''.objectWithin n) v = some d) entries slots := by
  induction h generalizing st with
  | nil => exact ⟨[], st, .pure [] st, .refl st, fun _ _ _ _ => .nil⟩
  | @cons e x _ _ head _ ih =>
    obtain ⟨k, h⟩ := e
    obtain ⟨v, st₁, hv, hspells⟩ := head.2 st
    obtain ⟨entries, st₂, hentries, hkeeps, hrest⟩ := ih st₁
    have he : Leads (ofHostEntry (k, h)) st (k.name, v) st₁ := by
      rw [ofHostEntry]
      exact hv.bind (.pure _ _)
    refine ⟨(k.name, v) :: entries, st₂, he.bind (hentries.bind (.pure _ _)),
      hv.keeps_ofHost.trans hkeeps, fun st'' hst'' n hn => ?_⟩
    have hsize := hv.keeps_ofHost.objects_size_le
    have hsize' := hkeeps.objects_size_le
    exact .cons ⟨head.1, hspells st'' (hkeeps.trans hst'') n (by omega)⟩
      (hrest st'' hst'' n (by omega))

theorem dataWith_of_related {object? : ObjectRef → Option Datum} {entries : Slots Text Value}
    {slots : Slots Text Datum}
    (h : Slots.Related (fun v d => st.datumWith object? v = some d) entries slots) :
    st.dataWith object? (entries.map Prod.snd) = some (slots.map Prod.snd) := by
  induction h with
  | nil => rfl
  | cons head _ ih =>
    rw [List.map_cons, Store.dataWith, head.2, ih]
    rfl

/-- An object whose slots spell data is spelled with these under the same names. -/
theorem objectWithin_succ_of_related {n : Nat} {r : ObjectRef} {slots : Slots Text Datum}
    (h : Slots.Related (fun v d => st.datumWith (st.objectWithin n) v = some d) (st.slots r) slots) :
    st.objectWithin (n + 1) r = some (.object slots) := by
  rw [Store.objectWithin, dataWith_of_related h, h.names_eq]
  exact congrArg (fun slots => some (Datum.object slots)) (List.zip_of_prod rfl rfl).symm

theorem TakesOver.list {hs : List HostValue} {ds : List Datum} (h : List.Forall₂ TakesOver hs ds) :
    TakesOver (.list hs) (.array ds) := by
  intro st
  obtain ⟨vs, st', hvs, -, hspells⟩ := ofHostItems_spell h st
  refine ⟨.array vs, st', ?_, fun st'' hst'' n hn => ?_⟩
  · rw [ofHost]
    exact hvs.bind (.pure _ _)
  · rw [Store.datumWith, hspells st'' hst'' n hn]
    rfl

theorem TakesOver.tuple {hs : List HostValue} {ds : List Datum} (h : List.Forall₂ TakesOver hs ds) :
    TakesOver (.tuple hs) (.array ds) := by
  have hsame : ofHost (.tuple hs) = ofHost (.list hs) := by rw [ofHost, ofHost]
  intro st
  rw [hsame]
  exact TakesOver.list h st

theorem TakesOver.map {es : List (HostKey × HostValue)} {slots : List (Text × Datum)}
    (h : TakesOverEntries es slots) : TakesOver (.map es) (.object (Slots.putAll [] slots)) := by
  intro st
  obtain ⟨entries, st', hentries, hkeeps, hspells⟩ := ofHostEntries_spell h st
  have hmap : Leads (ofHost (.map es)) st (.object st'.objects.size)
      (st'.pushObject (Slots.putAll [] entries)) := by
    rw [ofHost]
    exact hentries.bind ⟨rfl, rfl⟩
  refine ⟨_, _, hmap, fun st'' hst'' n hn => ?_⟩
  have hgrows := (Store.Grows.pushObject st' (Slots.putAll [] entries)).toKeeps
  have hslots : st''.slots st'.objects.size = Slots.putAll [] entries := by
    rw [hst''.slots_eq (by simp [Store.pushObject])]
    simp [Store.slots, Store.pushObject]
  have hsize : (st'.pushObject (Slots.putAll [] entries)).objects.size = st'.objects.size + 1 := by
    simp [Store.pushObject]
  have hle := hkeeps.objects_size_le
  obtain ⟨n, rfl⟩ : ∃ m, n = m + 1 := ⟨n - 1, by omega⟩
  refine objectWithin_succ_of_related ?_
  rw [hslots]
  exact Slots.Related.putAll .nil (hspells st'' (hgrows.trans hst'') n (by omega))

theorem takesOver_toHost {d : Datum} (hd : d.Distinct) (hfun : d.hasFunction = false) :
    TakesOver d.toHost d.nulled := by
  induction hd with
  | undefined | null | bool b | int i | float f | string s => exact .of_pure rfl fun _ _ => rfl
  | @array items _ ih =>
    rw [Datum.hasFunction, Datum.anyHasFunction_eq_any, List.any_eq_false] at hfun
    rw [Datum.toHost, Datum.toHostItems_eq_map, Datum.nulled, Datum.nulledItems_eq_map]
    refine .list ?_
    rw [List.forall₂_map_left_iff, List.forall₂_map_right_iff, List.forall₂_same]
    exact fun d hd => ih d hd (eq_false_of_ne_true (hfun d hd))
  | @object slots hnames _ ih =>
    rw [Datum.hasFunction, Datum.anySlotHasFunction_eq_any, List.any_eq_false] at hfun
    rw [Datum.toHost, Datum.toHostSlots_eq_map, Datum.nulled, Datum.nulledSlots_eq_map]
    have hentries : TakesOverEntries (slots.map Datum.toHostSlot) (slots.map Datum.nulledSlot) := by
      rw [TakesOverEntries, List.forall₂_map_left_iff, List.forall₂_map_right_iff, List.forall₂_same]
      rintro ⟨k, d⟩ he
      rw [Datum.toHostSlot, Datum.nulledSlot]
      exact ⟨rfl, ih (k, d) he (eq_false_of_ne_true (hfun (k, d) he))⟩
    have hput : Slots.putAll [] (slots.map Datum.nulledSlot) = slots.map Datum.nulledSlot := by
      refine (Slots.putAll_of_nodup [] ?_).trans (List.nil_append _)
      rw [Datum.names_nulledSlots]
      exact hnames
    rw [← hput]
    exact .map hentries
  | function => cases hfun

/-- What the host gets for a value and gives back is spelled like the value, but for null where it is
undefined. -/
theorem ofHost_toHost {d : Datum} (h : d.Plain) (st : Store) :
    ∃ v st', Leads (ofHost d.toHost) st v st' ∧ st'.datum? v = some d.nulled := by
  obtain ⟨v, st', hv, hspells⟩ := takesOver_toHost h.distinct h.hasFunction_eq_false st
  exact ⟨v, st', hv, hspells st' (.refl st') _ (by omega)⟩

/-! ### The filter that writes JSON -/

/-- The indent that an argument asks for, if it may be one. -/
def indentAsked? : Option Value → Option (Option Int)
  | none | some .null | some .undefined => some none
  | some (.int n) => some (some n)
  | some _ => none

variable {v : Value} {d : Datum} {a : Args} {picked : Slots String Value} {indent : Option Int}

theorem toJson_of_hasFunction (h : st.datum? v = some d) (hfun : d.hasFunction) :
    (toJson v indent).result st = .error (.error (.noJson .function) none) := by
  rw [toJson, result_bind_ok (leads_datum h).result, if_pos hfun]
  rfl

theorem toJson_of_json? (h : st.datum? v = some d)
    (hsize : ∀ n ∈ indent, -maxSize - 1 ≤ n ∧ n ≤ maxSize) {t : Text} (ht : d.json? indent = some t) :
    (toJson v indent).result st = .ok (.string t) := by
  have hfun : ¬ d.hasFunction := by
    intro hfun
    rw [Datum.json?, if_pos hfun] at ht
    cases ht
  have hwidth : ∀ n ∈ indent, Leads (expectWidth n) st () st := fun n hn => leads_expectWidth (hsize n hn)
  rw [toJson, result_bind_ok (leads_datum h).result, (leads_datum h).after, if_neg hfun]
  cases indent with
  | none =>
    dsimp only
    rw [ht]
    rfl
  | some n =>
    dsimp only
    rw [ht]
    split
    · rw [result_bind_ok (hwidth n rfl).result]
      rfl
    · rfl

/-- What the filter answers is the text of its operand. -/
theorem json?_of_toJson (h : st.datum? v = some d) {w : Value}
    (hw : (toJson v indent).result st = .ok w) : ∃ t, w = .string t ∧ d.json? indent = some t := by
  by_cases hfun : d.hasFunction
  · rw [toJson_of_hasFunction h hfun] at hw
    cases hw
  obtain ⟨t, ht⟩ : ∃ t, d.json? indent = some t := ⟨_, if_neg hfun⟩
  refine ⟨t, ?_, ht⟩
  rw [toJson, result_bind_ok (leads_datum h).result, if_neg hfun] at hw
  have hend : ∀ st', ((pure (.string t) : Eval Value)).result st' = .ok w → w = .string t := by
    rintro st' ⟨⟩
    rfl
  cases indent with
  | none =>
    dsimp only at hw
    rw [ht] at hw
    exact hend _ hw
  | some n =>
    dsimp only at hw
    rw [ht] at hw
    split at hw
    · obtain ⟨_, -, hw⟩ := result_bind_eq_ok hw
      exact hend _ hw
    · exact hend _ hw

theorem toJsonFilter_of_pick (hpick : (a.pick "tojson" ["indent"]).result st = .ok picked)
    (hindent : indentAsked? (picked.lookup "indent") = some indent) :
    (toJsonFilter v a).result st = (toJson v indent).result st := by
  rw [toJsonFilter, result_bind_ok hpick, (leads_pick hpick).after]
  revert hindent
  cases picked.lookup "indent" with
  | none => rintro ⟨⟩; rfl
  | some w => cases w <;> rintro ⟨⟩ <;> rfl

/-- Where the filter answers, its arguments ask for an indent. -/
theorem indentAsked_of_toJsonFilter {w : Value} (hw : (toJsonFilter v a).result st = .ok w) :
    ∃ indent, (toJson v indent).result st = .ok w := by
  obtain ⟨picked, hpick, hrest⟩ := result_bind_eq_ok hw
  cases hindent : indentAsked? (picked.lookup "indent") with
  | some indent => exact ⟨indent, toJsonFilter_of_pick hpick hindent ▸ hw⟩
  | none =>
    revert hindent hrest
    cases picked.lookup "indent" with
    | none => exact fun _ h => by cases h
    | some w => cases w <;> intro hrest hindent <;> first | cases hrest | cases hindent

theorem isBlank_indent (indent : Option Int) :
    Json.IsBlank (indent.map fun n => List.replicate n.toNat (.ofChar ' ')) := by
  intro u hu c hc
  obtain ⟨n, -, rfl⟩ := Option.map_eq_some_iff.mp hu
  rw [List.eq_of_mem_replicate hc]
  rfl

/-- JSON is read back as what the host gets. -/
theorem read?_of_json? (h : d.Plain) {t : Text} (ht : d.json? indent = some t) :
    Json.read? t = some d.toHost := by
  unfold Datum.json? at ht
  split at ht
  · cases ht
  · cases ht
    exact Json.read?_json h (isBlank_indent indent)

theorem nulled_eq_of_toHost_eq {e : Datum} (hd : d.Plain) (he : e.Plain) (h : d.toHost = e.toHost) :
    d.nulled = e.nulled := by
  obtain ⟨v, st, hv, hspells⟩ := ofHost_toHost hd default
  obtain ⟨w, st', hw, hspells'⟩ := ofHost_toHost he default
  rw [← h] at hw
  cases hv.result.symm.trans hw.result
  cases hv.after.symm.trans hw.after
  exact Option.some.inj (hspells.symm.trans hspells')

/-- The filter `tojson` on any value that is no part of itself, with any indent that can be built. A
function anywhere in it is an error. What has neither functions nor decimals is written so that it is
read back as what the host gets for it, which becomes a copy with null for undefined; so no two
values that differ otherwise have a text in common. -/
theorem toJsonFilter_roundTrip (hv : st.datum? v = some d)
    (hpick : (a.pick "tojson" ["indent"]).result st = .ok picked)
    (hindent : indentAsked? (picked.lookup "indent") = some indent) :
    (d.hasFunction → (toJsonFilter v a).result st = .error (.error (.noJson .function) none) ∧
      Cause.kind (.noJson .function) = .evaluation) ∧
    (d.Plain → (∀ n ∈ indent, -maxSize - 1 ≤ n ∧ n ≤ maxSize) →
      (toHost v).result st = .ok d.toHost ∧
      (∀ st', ∃ w st'', Leads (ofHost d.toHost) st' w st'' ∧ st''.datum? w = some d.nulled) ∧
      ∃ t, (toJsonFilter v a).result st = .ok (.string t) ∧ Json.read? t = some d.toHost ∧
        ∀ st' v' d' a', st'.datum? v' = some d' → d'.Plain →
          (toJsonFilter v' a').result st' = .ok (.string t) → d'.nulled = d.nulled) := by
  refine ⟨fun hfun => ⟨?_, rfl⟩, fun hplain hsize => ⟨?_, fun st' => ofHost_toHost hplain st', ?_⟩⟩
  · rw [toJsonFilter_of_pick hpick hindent, toJson_of_hasFunction hv hfun]
  · rw [toHost, result_bind_ok (leads_datum hv).result]
    rfl
  obtain ⟨t, ht⟩ : ∃ t, d.json? indent = some t := ⟨_, if_neg (by simp [hplain.hasFunction_eq_false])⟩
  refine ⟨t, ?_, read?_of_json? hplain ht, fun st' v' d' a' hv' hplain' ht' => ?_⟩
  · rw [toJsonFilter_of_pick hpick hindent, toJson_of_json? hv hsize ht]
  · obtain ⟨indent', hjson⟩ := indentAsked_of_toJsonFilter ht'
    obtain ⟨t', heq, hjson⟩ := json?_of_toJson hv' hjson
    cases heq
    refine nulled_eq_of_toHost_eq hplain' hplain (Option.some.inj ?_)
    rw [← read?_of_json? hplain' hjson, ← read?_of_json? hplain ht]

/-- An array with an undefined item and an object, indented by two. -/
theorem toJsonFilter_roundTrip_array :
    let st := Store.initial.pushObject [("key", .string "\"")]
    let v : Value := .array [.undefined, .int (-7), .object 0]
    let d : Datum := .array [.undefined, .int (-7), .object [("key", .string "\"")]]
    st.datum? v = some d ∧ d.Plain ∧ ∃ t,
      (toJsonFilter v ⟨[.int 2], []⟩).result st = .ok (.string t) ∧ Json.read? t = some d.toHost := by
  intro st v d
  have hplain : d.Plain := by
    refine .array fun d hd => ?_
    simp only [List.mem_cons, List.not_mem_nil, or_false] at hd
    rcases hd with rfl | rfl | rfl
    · exact .undefined
    · exact .int _
    · refine .object (by decide) fun e he => ?_
      cases List.mem_singleton.mp he
      exact .string _
  have hv : st.datum? v = some d := rfl
  have hpick : (Args.pick ⟨[.int 2], []⟩ "tojson" ["indent"]).result st =
      .ok [("indent", .int 2)] := rfl
  have hindent : indentAsked? (some (.int 2)) = some (some 2) := rfl
  obtain ⟨-, -, t, ht, hread, -⟩ := (toJsonFilter_roundTrip hv hpick hindent).2 hplain (by decide)
  exact ⟨hv, hplain, t, ht, hread⟩

end Eval
end ChatTemplate
