import ChatTemplate.Proofs.Eval.Exchange
import ChatTemplate.Proofs.Eval.Primitives
import Mathlib.Data.List.Induction

/-!
# Values to the host and back

A conversion answers unless there is something in the value that templates do not know, and then says
what (`Eval.Refuses`). What the host gets back has lists for tuples and plain strings for keys
(`HostValue.returned`), and a value that goes to the host comes back as it was
(`Eval.host_conversion_roundTrip`).
-/

namespace ChatTemplate

/-! ### Entries under one name -/

namespace Slots
variable {κ α : Type} [DecidableEq κ] {s : Slots κ α}

/-- Entries put together by name: each name where it comes first, with the value that comes last. -/
def gathered (es : List (κ × α)) : Slots κ α :=
  (es.map Prod.fst).eraseDups.filterMap fun name => (es.reverse.lookup name).map (name, ·)

/-- Names keep the places in which they come first. -/
theorem names_putAll_nil (es : List (κ × α)) :
    Slots.names (Slots.putAll [] es) = (es.map Prod.fst).eraseDups := by
  induction es using List.reverseRecOn with
  | nil => rfl
  | append_singleton es e ih =>
    rw [putAll_concat, List.map_append, List.eraseDups_append, ← ih]
    by_cases h : e.1 ∈ es.map Prod.fst
    · have hmem : e.1 ∈ Slots.names (Slots.putAll [] es) := ih ▸ List.mem_eraseDups.mpr h
      rw [names_put_of_mem hmem]
      simp [List.removeAll, h]
    · have hnew : e.1 ∉ Slots.names (Slots.putAll [] es) := ih ▸ mt List.mem_eraseDups.mp h
      rw [put_of_not_mem hnew, names, List.map_append]
      simp [names, List.removeAll, h, List.eraseDups_cons]

theorem filterMap_names_lookup (h : s.names.Nodup) :
    s.names.filterMap (fun name => (s.lookup name).map (name, ·)) = s := by
  have hself : s.filterMap (fun e => (s.lookup e.1).map (e.1, ·)) = s.filterMap some :=
    List.filterMap_congr fun e he => by rw [lookup_of_mem h he, Option.map_some]
  rw [names, List.filterMap_map]
  exact hself.trans List.filterMap_some

/-- To give names their values one after the other is to gather the entries. -/
theorem putAll_nil_eq_gathered (es : List (κ × α)) : Slots.putAll [] es = gathered es := by
  rw [← filterMap_names_lookup (nodup_names_putAll (s := []) List.nodup_nil es), names_putAll_nil]
  refine List.filterMap_congr fun name _ => ?_
  rw [lookup_putAll, List.lookup_nil, Option.or_none]

end Slots

/-! ### What comes back from a conversion -/

namespace HostValue

mutual

/-- The value with lists for tuples, and with the texts of keys for the keys. Keys of one text are
gathered. -/
def returned : HostValue → HostValue
  | .list items | .tuple items => .list (returnedItems items)
  | .map entries =>
    .map ((Slots.gathered (returnedEntries entries)).map fun e => (.string e.1, e.2))
  | h => h

def returnedItems : List HostValue → List HostValue
  | [] => []
  | h :: hs => returned h :: returnedItems hs

def returnedEntries : List (HostKey × HostValue) → List (Text × HostValue)
  | [] => []
  | e :: es => returnedEntry e :: returnedEntries es

def returnedEntry : HostKey × HostValue → Text × HostValue
  | (k, h) => (k.name, returned h)

end

/-- The first value is the second one, or an element or the value of an entry in it, however deep. -/
inductive Inside (x : HostValue) : HostValue → Prop
  | self : Inside x x
  | list {h : HostValue} {items : List HostValue} (hmem : h ∈ items) (hin : Inside x h) :
      Inside x (.list items)
  | tuple {h : HostValue} {items : List HostValue} (hmem : h ∈ items) (hin : Inside x h) :
      Inside x (.tuple items)
  | map {e : HostKey × HostValue} {entries : List (HostKey × HostValue)} (hmem : e ∈ entries)
      (hin : Inside x e.2) : Inside x (.map entries)

/-- Something of a type of this name, which templates do not know, is in the value. -/
def Holds (h : HostValue) (typeName : String) : Prop := Inside (.foreign typeName) h

variable {typeName : String}

theorem holds_list {items : List HostValue} :
    (HostValue.list items).Holds typeName ↔ ∃ h ∈ items, h.Holds typeName := by
  constructor
  · rintro (_ | ⟨hmem, hin⟩)
    exact ⟨_, hmem, hin⟩
  · rintro ⟨h, hmem, hin⟩
    exact .list hmem hin

theorem holds_tuple {items : List HostValue} :
    (HostValue.tuple items).Holds typeName ↔ ∃ h ∈ items, h.Holds typeName := by
  constructor
  · rintro (_ | _ | ⟨hmem, hin⟩)
    exact ⟨_, hmem, hin⟩
  · rintro ⟨h, hmem, hin⟩
    exact .tuple hmem hin

theorem holds_map {entries : List (HostKey × HostValue)} :
    (HostValue.map entries).Holds typeName ↔ ∃ e ∈ entries, e.2.Holds typeName := by
  constructor
  · rintro (_ | _ | _ | ⟨hmem, hin⟩)
    exact ⟨_, hmem, hin⟩
  · rintro ⟨e, hmem, hin⟩
    exact .map hmem hin

end HostValue

namespace Eval
variable {α β : Type} {st : Store}

/-! ### Which values convert -/

/-- The evaluation fails with a type that does not convert, one of these, or else answers if there are
none. -/
def Refuses (typeNames : String → Prop) (m : Eval α) : Prop :=
  ∀ st, (∃ t, typeNames t ∧ m.result st = .error (.error (.notConvertible t) none)) ∨
    (∀ t, ¬ typeNames t) ∧ ∃ a, m.result st = .ok a

namespace Refuses
variable {P Q : String → Prop} {m : Eval α}

theorem of_iff (h : Refuses P m) (hPQ : ∀ t, P t ↔ Q t) : Refuses Q m := by
  obtain rfl : P = Q := funext fun t => propext (hPQ t)
  exact h

theorem of_answer {f : Store → α} (hm : ∀ st, m.result st = .ok (f st)) (hP : ∀ t, ¬ P t) :
    Refuses P m :=
  fun st => .inr ⟨hP, _, hm st⟩

theorem bind {f : α → Eval β} (hm : Refuses P m) (hf : ∀ a, Refuses Q (f a)) :
    Refuses (fun t => P t ∨ Q t) (m >>= f) := by
  intro st
  rw [result_bind]
  rcases hm st with ⟨t, ht, hresult⟩ | ⟨hP, a, hresult⟩
  · rw [hresult]
    exact .inl ⟨t, .inl ht, rfl⟩
  · rw [hresult]
    rcases hf a (m.after st) with ⟨t, ht, hresult⟩ | ⟨hQ, hresult⟩
    · exact .inl ⟨t, .inr ht, hresult⟩
    · exact .inr ⟨fun t ht => ht.elim (hP t) (hQ t), hresult⟩

/-- What cannot fail may follow. -/
theorem bind_answer {f : α → Eval β} {g : α → Store → β} (hm : Refuses P m)
    (hf : ∀ a st, (f a).result st = .ok (g a st)) : Refuses P (m >>= f) :=
  (hm.bind fun a => of_answer (hf a) fun t (h : False) => h).of_iff fun t => by simp

theorem fails_iff (h : Refuses P m) : (∃ f, m.result st = .error f) ↔ ∃ t, P t := by
  rcases h st with ⟨t, ht, hresult⟩ | ⟨hP, a, hresult⟩
  · exact ⟨fun _ => ⟨t, ht⟩, fun _ => ⟨_, hresult⟩⟩
  · rw [hresult]
    exact ⟨nofun, fun ⟨t, ht⟩ => absurd ht (hP t)⟩

theorem fault_eq (h : Refuses P m) {f : Fault} (hf : m.result st = .error f) :
    ∃ t, P t ∧ f = .error (.notConvertible t) none := by
  rcases h st with ⟨t, ht, hresult⟩ | ⟨-, a, hresult⟩
  · exact ⟨t, ht, Except.error.inj (hf.symm.trans hresult)⟩
  · cases hf.symm.trans hresult

end Refuses

mutual

theorem ofHost_refuses (h : HostValue) : Refuses h.Holds (ofHost h) := by
  cases h with
  | list items =>
    rw [ofHost]
    exact ((ofHostItems_refuses items).bind_answer fun _ _ => rfl).of_iff fun _ =>
      HostValue.holds_list.symm
  | tuple items =>
    rw [ofHost]
    exact ((ofHostItems_refuses items).bind_answer fun _ _ => rfl).of_iff fun _ =>
      HostValue.holds_tuple.symm
  | map entries =>
    rw [ofHost]
    exact ((ofHostEntries_refuses entries).bind_answer fun _ _ => rfl).of_iff fun _ =>
      HostValue.holds_map.symm
  | foreign typeName => exact fun st => .inl ⟨typeName, .self, rfl⟩
  | _ => exact .of_answer (fun _ => rfl) fun _ => nofun

theorem ofHostItems_refuses (hs : List HostValue) :
    Refuses (fun t => ∃ h ∈ hs, h.Holds t) (ofHostItems hs) := by
  cases hs with
  | nil => exact .of_answer (fun _ => rfl) fun _ => nofun
  | cons h hs =>
    rw [ofHostItems]
    refine Refuses.of_iff ((ofHost_refuses h).bind fun v =>
      (ofHostItems_refuses hs).bind_answer fun _ _ => rfl) fun t => ?_
    rw [List.exists_mem_cons_iff]

theorem ofHostEntries_refuses (es : List (HostKey × HostValue)) :
    Refuses (fun t => ∃ e ∈ es, e.2.Holds t) (ofHostEntries es) := by
  cases es with
  | nil => exact .of_answer (fun _ => rfl) fun _ => nofun
  | cons e es =>
    rw [ofHostEntries]
    refine Refuses.of_iff ((ofHostEntry_refuses e).bind fun v =>
      (ofHostEntries_refuses es).bind_answer fun _ _ => rfl) fun t => ?_
    rw [List.exists_mem_cons_iff]

theorem ofHostEntry_refuses (e : HostKey × HostValue) : Refuses e.2.Holds (ofHostEntry e) := by
  obtain ⟨k, h⟩ := e
  rw [ofHostEntry]
  exact (ofHost_refuses h).bind_answer fun _ _ => rfl

end

/-! ### From the host and back -/

theorem leads_toHost {v : Value} {d : Datum} (h : st.datum? v = some d) :
    Leads (toHost v) st d.toHost st :=
  (leads_datum h).bind (.pure _ _)

theorem TakesOver.leads {h : HostValue} {d : Datum} (hd : TakesOver h d) (st : Store) :
    ∃ v st', Leads (ofHost h) st v st' ∧ st'.datum? v = some d := by
  obtain ⟨v, st', hv, hspells⟩ := hd st
  exact ⟨v, st', hv, hspells st' (.refl st') _ (by omega)⟩

mutual

/-- Constants, lists and mappings become a datum that the host gets back as it should. -/
theorem takesOver_of_isData (h : HostValue) (hh : h.isData) :
    ∃ d, TakesOver h d ∧ d.toHost = h.returned := by
  cases h with
  | null => exact ⟨.null, .of_pure rfl fun _ _ => rfl, rfl⟩
  | bool b => exact ⟨.bool b, .of_pure rfl fun _ _ => rfl, rfl⟩
  | int i => exact ⟨.int i, .of_pure rfl fun _ _ => rfl, rfl⟩
  | float f => exact ⟨.float f, .of_pure rfl fun _ _ => rfl, rfl⟩
  | string s => exact ⟨.string s, .of_pure rfl fun _ _ => rfl, rfl⟩
  | list items =>
    obtain ⟨ds, hds, heq⟩ := takesOver_of_allData items hh
    refine ⟨.array ds, .list hds, ?_⟩
    rw [Datum.toHost, Datum.toHostItems_eq_map, heq, HostValue.returned]
  | tuple items =>
    obtain ⟨ds, hds, heq⟩ := takesOver_of_allData items hh
    refine ⟨.array ds, .tuple hds, ?_⟩
    rw [Datum.toHost, Datum.toHostItems_eq_map, heq, HostValue.returned]
  | map entries =>
    obtain ⟨slots, hslots, heq⟩ := takesOver_of_entriesData entries hh
    refine ⟨.object (Slots.putAll [] slots), .map hslots, ?_⟩
    have hput : Slots.putAll [] (slots.map fun x => (x.1, x.2.toHost)) =
        (Slots.putAll [] slots).map fun x => (x.1, x.2.toHost) := Slots.putAll_map Datum.toHost [] slots
    rw [Datum.toHost, Datum.toHostSlots_eq_map, HostValue.returned, ← heq,
      ← Slots.putAll_nil_eq_gathered, hput, List.map_map]
    exact congrArg HostValue.map (List.map_congr_left fun (k, d) _ => by
      rw [Function.comp_apply, Datum.toHostSlot])
  | callable | foreign | value => cases hh

theorem takesOver_of_allData (hs : List HostValue) (hhs : HostValue.allData hs) :
    ∃ ds, List.Forall₂ TakesOver hs ds ∧ ds.map Datum.toHost = HostValue.returnedItems hs := by
  cases hs with
  | nil => exact ⟨[], .nil, rfl⟩
  | cons h hs =>
    simp only [HostValue.allData, Bool.and_eq_true] at hhs
    obtain ⟨d, hd, hdeq⟩ := takesOver_of_isData h hhs.1
    obtain ⟨ds, hds, heq⟩ := takesOver_of_allData hs hhs.2
    refine ⟨d :: ds, .cons hd hds, ?_⟩
    rw [List.map_cons, hdeq, heq, HostValue.returnedItems]

theorem takesOver_of_entriesData (es : List (HostKey × HostValue))
    (hes : HostValue.entriesData es) : ∃ slots, TakesOverEntries es slots ∧
      slots.map (fun x => (x.1, x.2.toHost)) = HostValue.returnedEntries es := by
  match es with
  | [] => exact ⟨[], .nil, rfl⟩
  | (k, h) :: es =>
    simp only [HostValue.entriesData, HostValue.entryData, Bool.and_eq_true] at hes
    obtain ⟨d, hd, hdeq⟩ := takesOver_of_isData h hes.1
    obtain ⟨slots, hslots, heq⟩ := takesOver_of_entriesData es hes.2
    refine ⟨(k.name, d) :: slots, .cons ⟨rfl, hd⟩ hslots, ?_⟩
    rw [List.map_cons, hdeq, heq, HostValue.returnedEntries, HostValue.returnedEntry]

end

/-! ### To the host and back -/

/-- The kinds of the values that the host gives back as they were. -/
def lastingKinds : List ValueKind := [.null, .bool, .int, .float, .string, .array, .object]

theorem nulled_of_lastingKinds {d : Datum} (h : d.Of lastingKinds) : d.nulled = d := by
  induction h with
  | undefined h => exact absurd h (by decide)
  | array _ _ ih =>
    rw [Datum.nulled, Datum.nulledItems_eq_map, List.map_congr_left ih, List.map_id']
  | @object _ slots _ ih =>
    have hslot (e : Text × Datum) (he : e ∈ slots) : Datum.nulledSlot e = e := by
      obtain ⟨k, d⟩ := e
      rw [Datum.nulledSlot, ih (k, d) he]
    rw [Datum.nulled, Datum.nulledSlots_eq_map, List.map_congr_left hslot, List.map_id']
  | _ => rfl

/-- Conversions to the host and from it undo each other. A value of the host made of constants, lists,
tuples and mappings comes back with lists for tuples and with the texts of keys, where the first key of
a text gives the place and the last one the value. A value without functions and undefined parts, which
is spelled out unless something in it is part of itself, comes back as a copy. A conversion fails if and
only if something of a type that templates do not know is in the value, and the error names such a type. -/
theorem host_conversion_roundTrip :
    (∀ (h : HostValue) (st : Store), h.isData → ∃ v st', Leads (ofHost h) st v st' ∧
      Leads (toHost v) st' h.returned st') ∧
    (∀ (v : Value) (st : Store), st.Dictionaries →
      (st.Cyclic v → (toHost v).result st = .error .endless) ∧
      (¬ st.Cyclic v → ∃ d, st.datum? v = some d ∧ (d.Of lastingKinds → ∃ h w st',
        Leads (toHost v) st h st ∧ Leads (ofHost h) st w st' ∧ st'.datum? w = some d))) ∧
    ∀ (h : HostValue) (st : Store),
      ((∃ f, (ofHost h).result st = .error f) ↔ ∃ t, HostValue.Inside (.foreign t) h) ∧
      ∀ f, (ofHost h).result st = .error f → ∃ t, HostValue.Inside (.foreign t) h ∧
        f = .error (.notConvertible t) none ∧ Cause.kind (.notConvertible t) = .runtime := by
  refine ⟨fun h st hh => ?_, fun v st hst => ⟨fun hcyclic => ?_, fun hcyclic => ?_⟩,
    fun h st => ⟨(ofHost_refuses h).fails_iff, fun f hf => ?_⟩⟩
  · obtain ⟨d, hd, heq⟩ := takesOver_of_isData h hh
    obtain ⟨v, st', hv, hdatum⟩ := hd.leads st
    exact ⟨v, st', hv, heq ▸ leads_toHost hdatum⟩
  · have hnone := Store.datum?_eq_none_iff.mpr hcyclic
    rw [toHost, result_bind, datum, result_finite_of_none hnone]
  · obtain ⟨d, hd⟩ := Option.ne_none_iff_exists'.mp (mt Store.datum?_eq_none_iff.mp hcyclic)
    refine ⟨d, hd, fun hkinds => ?_⟩
    have htakes := takesOver_toHost (hst.distinct hd) (hkinds.hasFunction_eq_false (by decide))
    rw [nulled_of_lastingKinds hkinds] at htakes
    obtain ⟨w, st', hw, hdatum⟩ := htakes.leads st
    exact ⟨_, w, st', leads_toHost hd, hw, hdatum⟩
  · obtain ⟨t, ht, hfault⟩ := (ofHost_refuses h).fault_eq hf
    exact ⟨t, ht, hfault, rfl⟩

/-- Of two keys of one text the first gives the place and the last the value. What the host gets for
the mapping comes back to a template as it was, and a set in it would be refused. -/
theorem host_conversion_colliding_keys :
    let h : HostValue := .map
      [(.int 1, .tuple [.bool true]), (.string "k", .tuple [.int 2]), (.string "1", .null)]
    let st := Store.initial.pushObject [("1", .null), ("k", .array [.int 2])]
    (∃ v st', Leads (ofHost h) .initial v st' ∧
      Leads (toHost v) st' (.map [(.string "1", .null), (.string "k", .list [.int 2])]) st') ∧
    (∃ h w st', Leads (toHost (.object 0)) st h st ∧ Leads (ofHost h) st w st' ∧
      st'.datum? w = some (.object [("1", .null), ("k", .array [.int 2])])) ∧
    ∃ f, (ofHost (.list [.null, .foreign "set"])).result .initial = .error f := by
  intro h st
  obtain ⟨hback, hcopy, hrefused⟩ := host_conversion_roundTrip
  have hst : st.Dictionaries := Store.dictionaries_initial.pushObject (by decide)
  have hdatum : st.datum? (.object 0) = some (.object [("1", .null), ("k", .array [.int 2])]) := rfl
  have hcyclic : ¬ st.Cyclic (.object 0) := fun hcyclic =>
    absurd (hdatum.symm.trans (Store.datum?_eq_none_iff.mpr hcyclic)) nofun
  have hkinds : Datum.Of lastingKinds (.object [("1", .null), ("k", .array [.int 2])]) := by
    refine .object (by decide) fun e he => ?_
    rcases List.mem_cons.mp he with rfl | he
    · exact .null (by decide)
    · cases List.mem_singleton.mp he
      exact .array (by decide) fun d hd => List.mem_singleton.mp hd ▸ .int (by decide) 2
  obtain ⟨d, hd, hreturns⟩ := (hcopy (.object 0) st hst).2 hcyclic
  cases hdatum.symm.trans hd
  exact ⟨hback h .initial rfl, hreturns hkinds,
    (hrefused _ .initial).1.mpr ⟨"set", .list (.tail _ (.head _)) .self⟩⟩

end Eval
end ChatTemplate
