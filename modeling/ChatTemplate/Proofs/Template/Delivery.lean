import ChatTemplate.Compile
import ChatTemplate.Proofs.Eval.Macros
import ChatTemplate.Proofs.Template.Variables

/-!
# What becomes of the arguments of a call

A call is written with values and with keywords, of which one may come twice (`Written`). The
keywords are put together first, and the last of a name stays. A macro takes the value in the
position of a parameter before the keyword of its name, and `Args.pick` takes the keyword before the
value. So every argument arrives where no parameter is supplied twice.
-/

namespace ChatTemplate

/-! ### Lookups -/

namespace Slots
variable {κ α : Type} [DecidableEq κ]

theorem lookup_reverse {s : Slots κ α} (h : s.names.Nodup) (name : κ) :
    s.reverse.lookup name = s.lookup name := by
  have hreverse : (Slots.names s.reverse).Nodup := by
    rw [names, List.map_reverse]
    exact List.nodup_reverse.mpr h
  cases hs : s.lookup name with
  | none => rw [lookup_eq_none] at hs ⊢; simpa [names] using hs
  | some x => exact lookup_of_mem hreverse (List.mem_reverse.mpr (mem_of_lookup hs))

end Slots

/-! ### Arguments as they are written -/

/-- The arguments of a call as they are written. The same keyword may come twice. -/
structure Written where
  positional : List Value
  keywords : List (String × Value)

namespace Written

/-- What a call with these arguments is given. -/
def args (w : Written) : Args := ⟨w.positional, Slots.putAll [] w.keywords⟩

/-- The arguments and the names of the parameters that they are meant for. -/
def supplies (w : Written) (names : List String) : List (String × Value) :=
  names.zip w.positional ++ w.keywords

/-- Each parameter has one name, and at most one argument is meant for it. -/
structure Single (w : Written) (names : List String) : Prop where
  distinct : names.Nodup
  once : (Slots.names (w.supplies names)).Nodup

/-- Nothing but the arguments is supplied, where there is a parameter for each. -/
theorem supplies_values {w : Written} {names : List String} (h : w.positional.length ≤ names.length) :
    (w.supplies names).map Prod.snd = w.positional ++ w.keywords.map Prod.snd := by
  rw [supplies, List.map_append, List.map_snd_zip h]

theorem lookup_keywords (w : Written) (name : String) :
    w.args.keywords.lookup name = w.keywords.reverse.lookup name := by
  refine (Slots.lookup_putAll [] w.keywords name).trans ?_
  rw [List.lookup_nil, Option.or_none]

theorem exists_place {w : Written} {names : List String} {e : String × Value}
    (he : e ∈ names.zip w.positional) :
    ∃ j : Nat, names[j]? = some e.1 ∧ w.positional[j]? = some e.2 := by
  obtain ⟨j, hj, rfl⟩ := List.getElem_of_mem he
  rw [List.length_zip] at hj
  exact ⟨j, by simp [List.getElem_zip], by simp [List.getElem_zip]⟩

namespace Single
variable {w : Written} {names : List String} {e : String × Value}

theorem nodup (h : w.Single names) :
    (Slots.names (names.zip w.positional)).Nodup ∧ (Slots.names w.keywords).Nodup ∧
      ∀ x ∈ names.zip w.positional, ∀ y ∈ w.keywords, x.1 ≠ y.1 := by
  have honce := h.once
  rw [supplies, Slots.names, List.map_append] at honce
  obtain ⟨hzip, hkeywords, hne⟩ := List.nodup_append.mp honce
  exact ⟨hzip, hkeywords, fun x hx y hy =>
    hne _ (List.mem_map_of_mem hx) _ (List.mem_map_of_mem hy)⟩

theorem lookup_keyword (h : w.Single names) (he : e ∈ w.keywords) :
    w.keywords.reverse.lookup e.1 = some e.2 := by
  have hkeywords := h.nodup.2.1
  rw [Slots.lookup_reverse hkeywords, Slots.lookup_of_mem hkeywords he]

theorem mem_args_names (h : w.Single names) (he : e ∈ w.keywords) : e.1 ∈ w.args.keywords.names := by
  by_contra hnot
  have hlookup := h.lookup_keyword he
  rw [← w.lookup_keywords, Slots.lookup_eq_none.mpr hnot] at hlookup
  cases hlookup

/-- Of each name there is one parameter. -/
theorem existsUnique {name : String} {P : Nat → Prop} (h : w.Single names)
    (hj : ∃ j : Nat, names[j]? = some name ∧ P j) : ∃! j : Nat, names[j]? = some name ∧ P j := by
  obtain ⟨j, hname, hP⟩ := hj
  obtain ⟨hlt, -⟩ := List.getElem?_eq_some_iff.mp hname
  exact ⟨j, ⟨hname, hP⟩, fun k hk =>
    ((List.getElem?_inj hlt h.distinct).mp (hname.trans hk.1.symm)).symm⟩

/-- A parameter that a keyword is meant for has no value in its position. -/
theorem length_le_of_keyword {j : Nat} (h : w.Single names) (he : e ∈ w.keywords)
    (hj : names[j]? = some e.1) : w.positional.length ≤ j := by
  by_contra hlt
  obtain ⟨hnames, hname⟩ := List.getElem?_eq_some_iff.mp hj
  have hpositional : j < w.positional.length := Nat.lt_of_not_le hlt
  have hmem : (names[j], w.positional[j]) ∈ names.zip w.positional :=
    List.mem_iff_getElem.mpr ⟨j, by simp [hnames, hpositional], by simp⟩
  exact h.nodup.2.2 _ hmem e he hname

end Single

end Written

namespace Eval
variable {ev : Evaluator} {host : Host} {inner scope : Scope} {a : Args} {w : Written} {i j : Nat}
  {p : Param} {params : List Param} {name : String} {body : List Stmt} {v : Value} {vs : List Value}
  {st st₁ : Store}

/-- Evaluates the arguments of a call from left to right and keeps all of them. -/
def written (ev : Evaluator) (scope : Scope) : List Arg → Written → Eval Written
  | [], given => return given
  | .positional e :: rest, given => do
    let v ← ev.expr e scope
    written ev scope rest { given with positional := given.positional ++ [v] }
  | .keyword w e :: rest, given => do
    let v ← ev.expr e scope
    written ev scope rest { given with keywords := given.keywords ++ [(w.text, v)] }
  | .spread e :: rest, given => do
    match ← ev.expr e scope with
    | .array items => written ev scope rest { given with positional := given.positional ++ items }
    | v => fail (.notUnpackable v.kind)

/-- All that is lost when arguments are evaluated are keywords that come again. -/
theorem args_eq_written (ev : Evaluator) (scope : Scope) (as : List Arg) (given : Written) :
    args ev scope as given.args = Written.args <$> written ev scope as given := by
  induction as generalizing given with
  | nil => rfl
  | cons a as ih =>
    cases a with
    | positional e =>
      rw [args, written, map_bind]
      exact bind_congr fun v => ih { given with positional := given.positional ++ [v] }
    | keyword w e =>
      rw [args, written, map_bind]
      refine bind_congr fun v => ?_
      rw [← ih { given with keywords := given.keywords ++ [(w.text, v)] }]
      exact congrArg (fun ks => args ev scope as ⟨given.positional, ks⟩)
        (Slots.putAll_concat [] given.keywords w.text v).symm
    | spread e =>
      rw [args, written, map_bind]
      refine bind_congr fun v => ?_
      cases v with
      | array items => exact ih { given with positional := given.positional ++ items }
      | _ => rfl

/-! ### Macros -/

theorem Binds.supplied {ps : List Param} {st' : Store} (h : Binds ev inner a i st ps vs st')
    (hp : ps[j]? = some p) :
    ∃ v st₁ st₂, vs[j]? = some v ∧ Supplied ev inner a (i + j) p st₁ v st₂ := by
  induction h generalizing j with
  | nil => cases hp
  | @cons i q v ps vs st st₁ st' value _ ih =>
    cases j with
    | zero =>
      cases hp
      exact ⟨v, st, st₁, rfl, value⟩
    | succ j =>
      rw [show i + (j + 1) = i + 1 + j by omega]
      exact ih hp

/-- What a parameter of a macro is bound to, if it has an argument: the value in its position, and
only where there is none the last keyword of its name. -/
theorem Binds.value_eq (h : Binds ev inner w.args 0 st params vs st₁) (hp : params[j]? = some p) :
    (∀ v, w.positional[j]? = some v → vs[j]? = some v) ∧
      (w.positional.length ≤ j → ∀ v, w.keywords.reverse.lookup p.name = some v →
        vs[j]? = some v) := by
  obtain ⟨v, st₁, st₂, hv, hsupplied⟩ := h.supplied hp
  rw [Nat.zero_add] at hsupplied
  rw [hv]
  have hnone (hj : w.positional.length ≤ j) : w.positional[j]? = none := List.getElem?_eq_none hj
  rw [← w.lookup_keywords]
  cases hsupplied with
  | position h =>
    exact ⟨fun x hx => h.symm.trans hx,
      fun hj => absurd (h.symm.trans (hnone hj)) (Option.some_ne_none v)⟩
  | keyword position h =>
    exact ⟨fun x hx => absurd (hx.symm.trans (hnone position)) (Option.some_ne_none x),
      fun _ x hx => h.symm.trans hx⟩
  | default lacks =>
    have hkeyword := Slots.lookup_eq_none.mpr lacks.keyword
    exact ⟨fun x hx => absurd (hx.symm.trans (hnone lacks.position)) (Option.some_ne_none x),
      fun _ x hx => absurd (hx.symm.trans hkeyword) (Option.some_ne_none x)⟩

/-- Where no parameter is supplied twice, the macro gets each argument as the value of the parameter
that it is meant for. -/
theorem Binds.delivers (h : Binds ev inner w.args 0 st params vs st₁) (hfits : w.args.Fits params)
    (hsingle : w.Single (params.map Param.name)) :
    ∀ e ∈ w.supplies (params.map Param.name),
      ∃! j : Nat, (params.map Param.name)[j]? = some e.1 ∧ vs[j]? = some e.2 := by
  intro e he
  refine hsingle.existsUnique ?_
  rcases List.mem_append.mp he with hposition | hkeyword
  · obtain ⟨j, hname, hv⟩ := Written.exists_place hposition
    obtain ⟨p, hp, -⟩ := Option.map_eq_some_iff.mp (List.getElem?_map ▸ hname)
    exact ⟨j, hname, (h.value_eq hp).1 _ hv⟩
  · obtain ⟨j, hname⟩ :=
      List.mem_iff_getElem?.mp (hfits.known _ (hsingle.mem_args_names hkeyword))
    obtain ⟨p, hp, heq⟩ := Option.map_eq_some_iff.mp (List.getElem?_map ▸ hname)
    have hlookup := hsingle.lookup_keyword hkeyword
    rw [← heq] at hlookup
    exact ⟨j, hname, (h.value_eq hp).2 (hsingle.length_le_of_keyword hkeyword hname) _ hlookup⟩

/-- A macro that answers has bound its parameters and run its body. -/
theorem callMacro_eq_ok (hplain : Param.PlainFirst params)
    (h : (callMacro ev name params body a scope).result st = .ok v) :
    a.Fits params ∧
      ∃ vs st₁, Binds ev ⟨st.frames.size, scope.chain⟩ a 0 (st.pushFrame []) params vs st₁ := by
  have hfits : a.Fits params := by
    by_contra hmisfit
    obtain ⟨cause, st', -, hfails⟩ := callMacro_of_not_fits hplain hmisfit name body scope st
    cases h.symm.trans (hfails ev).1
  refine ⟨hfits, ?_⟩
  rcases binds_or_defaultFails (i := 0) hfits.supplied (st.pushFrame []) with hbinds | ⟨f, hfails⟩
  · exact hbinds
  · cases h.symm.trans (callMacro_of_defaultFails hfits name body hfails)

/-! ### Functions of the language -/

theorem pick_eq_ok {method : String} {names : List String} {picked : Slots String Value}
    (h : (a.pick method names).result st = .ok picked) :
    a.positional.length ≤ names.length ∧ (∀ name ∈ a.keywords.names, name ∈ names) ∧
      picked = Slots.putAll (names.zip a.positional) a.keywords := by
  unfold Args.pick at h
  dsimp only at h
  split at h
  · cases h
  · rename_i hlength
    split at h
    · cases h
    · rename_i hfind
      cases h
      have hnone := Option.eq_none_iff_forall_ne_some.mpr fun (e : String × Value) => hfind e.1 e.2
      refine ⟨Nat.le_of_not_lt hlength, fun name hname => ?_, rfl⟩
      obtain ⟨e, he, rfl⟩ := List.mem_map.mp hname
      simpa using List.find?_eq_none.mp hnone e he

/-- What a function of the language gets for a parameter: the last keyword of its name, and only
where there is none the value in its position. -/
theorem lookup_picked {names : List String} (name : String) :
    (Slots.putAll (names.zip w.positional) w.args.keywords).lookup name =
      (w.keywords.reverse.lookup name).or ((names.zip w.positional).lookup name) := by
  have hnodup : (Slots.names w.args.keywords).Nodup :=
    Slots.nodup_names_putAll (s := []) List.nodup_nil w.keywords
  rw [Slots.lookup_putAll, Slots.lookup_reverse hnodup, w.lookup_keywords]

theorem lookup_picked_of_single {names : List String} (hsingle : w.Single names)
    {e : String × Value} (he : e ∈ w.supplies names) :
    (Slots.putAll (names.zip w.positional) w.args.keywords).lookup e.1 = some e.2 := by
  rw [lookup_picked]
  rcases List.mem_append.mp he with hposition | hkeyword
  · obtain ⟨hzip, hkeywords, hne⟩ := hsingle.nodup
    have hnone : w.keywords.reverse.lookup e.1 = none := by
      rw [Slots.lookup_reverse hkeywords, Slots.lookup_eq_none]
      intro hmem
      obtain ⟨e', he', heq⟩ := List.mem_map.mp hmem
      exact hne e hposition e' he' heq.symm
    rw [hnone, Slots.lookup_of_mem hzip hposition]
    rfl
  · rw [hsingle.lookup_keyword hkeyword]
    rfl

/-! ### Calls -/

/-- The keywords of a call are put together when its arguments are evaluated. A macro that answers
has bound each parameter to the value in its position, else to the last keyword of its name, and run
its body with that; a function of the language that goes on takes the last keyword, else the value.
In both, where no parameter is supplied twice, each argument is the value of exactly one parameter. -/
theorem arguments_delivered (host : Host) (ev : Evaluator) :
    (∀ scope as, args ev scope as Args.none = Written.args <$> written ev scope as ⟨[], []⟩) ∧
    (∀ st r name params body (w : Written) scope v, st.function r = .defined name params body →
      Param.PlainFirst params →
      (callValue ev host (.function r) w.args scope).result st = .ok v →
      let inner : Scope := ⟨st.frames.size, scope.chain⟩
      let names := params.map Param.name
      ∃ vs st₁, Binds ev inner w.args 0 (st.pushFrame []) params vs st₁ ∧
        Resumes (callValue ev host (.function r) w.args scope) st
          (return .string (← closedBlock ev inner body)) st₁ ∧
        (w.supplies names).map Prod.snd = w.positional ++ w.keywords.map Prod.snd ∧
        (∀ (j : Nat) p, params[j]? = some p →
          (∀ v, w.positional[j]? = some v → vs[j]? = some v) ∧
          (w.positional.length ≤ j → ∀ v, w.keywords.reverse.lookup p.name = some v →
            vs[j]? = some v)) ∧
        (w.Single names → ∀ e ∈ w.supplies names,
          ∃! j : Nat, names[j]? = some e.1 ∧ vs[j]? = some e.2)) ∧
    ∀ method names (w : Written) st picked, (w.args.pick method names).result st = .ok picked →
      (w.supplies names).map Prod.snd = w.positional ++ w.keywords.map Prod.snd ∧
      (∀ name, picked.lookup name =
        (w.keywords.reverse.lookup name).or ((names.zip w.positional).lookup name)) ∧
      (w.Single names → ∀ e ∈ w.supplies names,
        ∃! j : Nat, names[j]? = some e.1 ∧ picked.lookup e.1 = some e.2) := by
  refine ⟨fun scope as => args_eq_written ev scope as ⟨[], []⟩, ?macros, ?functions⟩
  case macros =>
    intro st r name params body w scope v hr hplain hresult inner names
    have hcall : Resumes (callValue ev host (.function r) w.args scope) st
        (callMacro ev name params body w.args scope) st := resumes_callMacro hr
    obtain ⟨hfits, vs, st₁, hbinds⟩ := callMacro_eq_ok hplain (hcall.result.symm.trans hresult)
    have hfew : w.positional.length ≤ names.length := by
      rw [List.length_map]
      exact hfits.few
    exact ⟨vs, st₁, hbinds, hcall.trans (callMacro_of_binds hfits name body hbinds),
      Written.supplies_values hfew, fun j p hp => hbinds.value_eq hp, hbinds.delivers hfits⟩
  case functions =>
    intro method names w st picked hresult
    obtain ⟨hfew, hknown, rfl⟩ := pick_eq_ok hresult
    refine ⟨Written.supplies_values hfew, lookup_picked, fun hsingle e he => ?_⟩
    refine hsingle.existsUnique ?_
    have hpicked := lookup_picked_of_single hsingle he
    rcases List.mem_append.mp he with hposition | hkeyword
    · obtain ⟨j, hname, -⟩ := Written.exists_place hposition
      exact ⟨j, hname, hpicked⟩
    · obtain ⟨j, hname⟩ := List.mem_iff_getElem?.mp (hknown _ (hsingle.mem_args_names hkeyword))
      exact ⟨j, hname, hpicked⟩

/-- A call of a macro and one of `replace`, each with values in their positions and a keyword for a
parameter behind them. -/
theorem arguments_delivered_once :
    let w : Written := ⟨[.int 1], [("b", .int 2)]⟩
    let w' : Written := ⟨[.string "-", .string "+"], [("count", .int 1)]⟩
    (∃ vs : List Value, ∀ e ∈ w.supplies ["a", "b"],
      ∃! j : Nat, ["a", "b"][j]? = some e.1 ∧ vs[j]? = some e.2) ∧
    ∃ picked : Slots String Value, ∀ e ∈ w'.supplies ["old", "new", "count"],
      ∃! j : Nat, ["old", "new", "count"][j]? = some e.1 ∧ picked.lookup e.1 = some e.2 := by
  intro w w'
  let f : Function := .defined "m" [⟨"a", none⟩, ⟨"b", none⟩] []
  obtain ⟨-, hcalls, hpick⟩ := arguments_delivered Host.none (Evaluator.within Host.none 2)
  obtain ⟨vs, -, -, -, -, -, hdelivered⟩ := hcalls (Store.initial.pushFunction f) 3 "m" _ [] w default
    (.string "") rfl (.cons nofun (.cons nofun .nil)) rfl
  obtain ⟨-, -, hdelivered'⟩ := hpick "replace" ["old", "new", "count"] w' Store.initial _ rfl
  exact ⟨⟨vs, hdelivered ⟨by decide, by decide⟩⟩, _, hdelivered' ⟨by decide, by decide⟩⟩

end Eval

namespace Template

/-- A macro called with a position and a keyword for its parameter and with the same keyword twice,
and a method called with a position and a keyword for its first parameter. -/
def overridingSource : String :=
  "\x7b% macro m(a) %\x7d\x7b\x7b a \x7d\x7d\x7b% endmacro %\x7d" ++
    "\x7b\x7b m(1, a=2) \x7d\x7d\x7b\x7b m(a=1, a=2) \x7d\x7d" ++
    "\x7b\x7b \"a-b\".replace(\"-\", \"+\", old=\"b\") \x7d\x7d"

/-- The template of `overridingSource`. -/
def overriding : Template :=
  ⟨[.defineMacro ⟨"m", ⟨1, 10⟩⟩ [.positional (.name ⟨"a", ⟨1, 12⟩⟩)]
      [.output (.name ⟨"a", ⟨1, 20⟩⟩)],
    .output (.call (.name ⟨"m", ⟨1, 41⟩⟩)
      [.positional (.int ⟨"1", ⟨1, 43⟩⟩), .keyword ⟨"a", ⟨1, 46⟩⟩ (.int ⟨"2", ⟨1, 48⟩⟩)]),
    .output (.call (.name ⟨"m", ⟨1, 56⟩⟩)
      [.keyword ⟨"a", ⟨1, 58⟩⟩ (.int ⟨"1", ⟨1, 60⟩⟩),
        .keyword ⟨"a", ⟨1, 63⟩⟩ (.int ⟨"2", ⟨1, 65⟩⟩)]),
    .output (.call (.member (.string ⟨"a-b", ⟨1, 73⟩⟩) ⟨"replace", ⟨1, 79⟩⟩)
      [.positional (.string ⟨"-", ⟨1, 87⟩⟩), .positional (.string ⟨"+", ⟨1, 92⟩⟩),
        .keyword ⟨"old", ⟨1, 97⟩⟩ (.string ⟨"b", ⟨1, 101⟩⟩)])]⟩

theorem compile_overriding : compile ⟨true, true⟩ overridingSource = .ok overriding := by
  have h : tokens (Layout.normalize ⟨true, true⟩ overridingSource.toList) = .ok
      [⟨.openStatement, "\x7b%", ⟨1, 1⟩⟩, ⟨.name, "macro", ⟨1, 4⟩⟩, ⟨.name, "m", ⟨1, 10⟩⟩,
       ⟨.openParen, "(", ⟨1, 11⟩⟩, ⟨.name, "a", ⟨1, 12⟩⟩, ⟨.closeParen, ")", ⟨1, 13⟩⟩,
       ⟨.closeStatement, "%\x7d", ⟨1, 15⟩⟩, ⟨.openExpression, "\x7b\x7b", ⟨1, 17⟩⟩,
       ⟨.name, "a", ⟨1, 20⟩⟩, ⟨.closeExpression, "\x7d\x7d", ⟨1, 22⟩⟩,
       ⟨.openStatement, "\x7b%", ⟨1, 24⟩⟩, ⟨.name, "endmacro", ⟨1, 27⟩⟩,
       ⟨.closeStatement, "%\x7d", ⟨1, 36⟩⟩, ⟨.openExpression, "\x7b\x7b", ⟨1, 38⟩⟩,
       ⟨.name, "m", ⟨1, 41⟩⟩, ⟨.openParen, "(", ⟨1, 42⟩⟩, ⟨.number, "1", ⟨1, 43⟩⟩,
       ⟨.comma, ",", ⟨1, 44⟩⟩, ⟨.name, "a", ⟨1, 46⟩⟩, ⟨.equals, "=", ⟨1, 47⟩⟩,
       ⟨.number, "2", ⟨1, 48⟩⟩, ⟨.closeParen, ")", ⟨1, 49⟩⟩,
       ⟨.closeExpression, "\x7d\x7d", ⟨1, 51⟩⟩, ⟨.openExpression, "\x7b\x7b", ⟨1, 53⟩⟩,
       ⟨.name, "m", ⟨1, 56⟩⟩, ⟨.openParen, "(", ⟨1, 57⟩⟩, ⟨.name, "a", ⟨1, 58⟩⟩,
       ⟨.equals, "=", ⟨1, 59⟩⟩, ⟨.number, "1", ⟨1, 60⟩⟩, ⟨.comma, ",", ⟨1, 61⟩⟩,
       ⟨.name, "a", ⟨1, 63⟩⟩, ⟨.equals, "=", ⟨1, 64⟩⟩, ⟨.number, "2", ⟨1, 65⟩⟩,
       ⟨.closeParen, ")", ⟨1, 66⟩⟩, ⟨.closeExpression, "\x7d\x7d", ⟨1, 68⟩⟩,
       ⟨.openExpression, "\x7b\x7b", ⟨1, 70⟩⟩, ⟨.string, "a-b", ⟨1, 73⟩⟩, ⟨.dot, ".", ⟨1, 78⟩⟩,
       ⟨.name, "replace", ⟨1, 79⟩⟩, ⟨.openParen, "(", ⟨1, 86⟩⟩, ⟨.string, "-", ⟨1, 87⟩⟩,
       ⟨.comma, ",", ⟨1, 90⟩⟩, ⟨.string, "+", ⟨1, 92⟩⟩, ⟨.comma, ",", ⟨1, 95⟩⟩,
       ⟨.name, "old", ⟨1, 97⟩⟩, ⟨.equals, "=", ⟨1, 100⟩⟩, ⟨.string, "b", ⟨1, 101⟩⟩,
       ⟨.closeParen, ")", ⟨1, 104⟩⟩, ⟨.closeExpression, "\x7d\x7d", ⟨1, 106⟩⟩,
       ⟨.eof, "", ⟨1, 108⟩⟩] := by
    decide +kernel
  unfold compile Program.compile Program.ofText
  rw [h]
  rfl

/-- Arguments are lost without an error where they are meant for the same parameter: the macro drops
the keyword, or else the first of two keywords, and the method drops the value in the position. -/
theorem overridden_arguments_lost :
    compile ⟨true, true⟩ overridingSource = .ok overriding ∧
      (overriding.render Host.none 9 [] []).result Store.initial = .ok "12a-+" :=
  ⟨compile_overriding, by rfl⟩

end Template
end ChatTemplate
