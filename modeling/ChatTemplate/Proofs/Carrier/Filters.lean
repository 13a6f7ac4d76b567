import ChatTemplate.Eval.Filters
import ChatTemplate.Proofs.Carrier.Functions

/-!
# Filters on lists of arguments

A filter that picks its arguments may answer one of them; `selectattr`, `rejectattr` and `map` cut
the list and hand the rest to a test or to another filter.
-/

namespace ChatTemplate.Eval

theorem applyFilter_of_not_map (host : Host) (scope : Scope) (keywords : Slots String Value)
    {name : Text} (positional : List Value) (v : Value) (hname : name.toString? ≠ some "map") :
    applyFilter host scope keywords name positional v =
      plainFilter host scope name v ⟨positional, keywords⟩ := by
  rw [applyFilter.eq_def]
  dsimp only
  split
  · exact absurd (by assumption) hname
  · rfl

end ChatTemplate.Eval

namespace ChatTemplate.Passed
variable (a : Args)

/-! ### Any operand -/

def toJsonFilter (v : Value) (args : List Passed) : Eval Value := do
  let picked ← pick "tojson" args ["indent"]
  match picked.lookup "indent" with
  | none | some (.value .null) | some (.value .undefined) => Eval.toJson v none
  | some (.value (.int n)) => Eval.toJson v (some n)
  | some p => Eval.fail (.jsonIndent p.kind)

theorem toJsonFilter_passed (v : Value) : toJsonFilter v a.passed = Eval.toJsonFilter v a := by
  rw [toJsonFilter, pick_bind]
  refine bind_congr fun picked => ?_
  rw [lookup_ofSlots]
  cases picked.lookup "indent" with
  | none => rfl
  | some w => cases w <;> rfl

def joinFilter (v : Value) (args : List Passed) : Eval Value := do
  let picked ← pick "join" args ["d"]
  let sep : Text ←
    match picked.lookup "d" with
    | none => pure ""
    | some p => do Eval.textOf (← p.asValue)
  match v with
  | .array items => return .string (sep.intercalate (← items.mapM Eval.textOf))
  | .string s => return .string (sep.intercalate (s.toList.map fun c => .ofList [c]))
  | v => Eval.fail (.unknownFilter "join" (some v.kind))

theorem joinFilter_passed (v : Value) : joinFilter v a.passed = Eval.joinFilter v a := by
  rw [joinFilter, pick_bind]
  refine bind_congr fun picked => ?_
  rw [lookup_ofSlots]
  cases picked.lookup "d" <;> cases v <;> rfl

def intFilter (v : Value) (args : List Passed) : Eval Passed := do
  let picked ← pick "int" args ["default"]
  let fallback := (picked.lookup "default").getD (.value (.int 0))
  match v with
  | .int i => return .value (.int i)
  | .float f =>
    match Double.ofFloat f with
    | .finite s m e => return .value (.int (Double.floor s m e))
    | .infinite _ => Eval.overflow .infinite
    | .nan => Eval.badValue .notANumber
  | .bool b => return .value (.int (if b then 1 else 0))
  | .string s =>
    match Eval.readInteger? s with
    | some i => return .value (.int i)
    | none => return fallback
  | _ => return fallback

theorem getD_ofSlots (picked : Slots String Value) (name : String) (v : Value) :
    ((ofSlots picked).lookup name).getD (.value v) = .value ((picked.lookup name).getD v) := by
  rw [lookup_ofSlots]
  cases picked.lookup name <;> rfl

theorem intFilter_passed (v : Value) :
    intFilter v a.passed = value <$> Eval.intFilter v a := by
  rw [intFilter, pick_bind, Eval.intFilter, map_bind]
  refine bind_congr fun picked => ?_
  simp only [getD_ofSlots]
  cases v with
  | float f =>
    dsimp only
    cases Double.ofFloat f <;> rfl
  | string s =>
    dsimp only
    cases Eval.readInteger? s <;> rfl
  | _ => rfl

def floatFilter (v : Value) (args : List Passed) : Eval Passed := do
  let picked ← pick "float" args ["default"]
  let fallback := (picked.lookup "default").getD (.value (.float 0))
  match v with
  | .int i =>
    match Double.ofInt? i with
    | some f => return .value (.float f)
    | none => Eval.overflow (.toDouble i)
  | .float f => return .value (.float f)
  | .bool b => return .value (.float (if b then 1 else 0))
  | .string s =>
    match Number.readFloat? s.toList with
    | some f => return .value (.float f)
    | none => return fallback
  | _ => return fallback

theorem floatFilter_passed (v : Value) :
    floatFilter v a.passed = value <$> Eval.floatFilter v a := by
  rw [floatFilter, pick_bind, Eval.floatFilter, map_bind]
  refine bind_congr fun picked => ?_
  simp only [getD_ofSlots]
  cases v with
  | int i =>
    dsimp only
    cases Double.ofInt? i <;> rfl
  | string s =>
    dsimp only
    cases Number.readFloat? s.toList <;> rfl
  | _ => rfl

def defaultFilter (v : Value) (args : List Passed) : Eval Passed := do
  let picked ← pick "default" args ["default_value", "boolean"]
  let fallback := (picked.lookup "default_value").getD (.value (.string ""))
  match v with
  | .undefined | .null => return fallback
  | v =>
    let falsy ← truthy ((picked.lookup "boolean").getD (.value (.bool false)))
    if falsy && !(← Eval.truthy v) then return fallback else return .value v

theorem defaultFilter_passed (v : Value) :
    defaultFilter v a.passed = value <$> Eval.defaultFilter v a := by
  rw [defaultFilter, pick_bind, Eval.defaultFilter, map_bind]
  refine bind_congr fun picked => ?_
  simp only [getD_ofSlots]
  have hkept (v : Value) (b fallback : Value) : (do
      let falsy ← truthy (.value b)
      if falsy && !(← Eval.truthy v) then return .value fallback else return .value v) =
      value <$> (do
        let falsy ← Eval.truthy b
        if falsy && !(← Eval.truthy v) then return fallback else return v) := by
    rw [map_bind]
    refine bind_congr fun falsy => ?_
    rw [map_bind]
    refine bind_congr fun holds => ?_
    split <;> rfl
  cases v with
  | undefined | null => rfl
  | _ => exact hkept _ _ _

/-! ### Arrays -/

def sortFilter (items : List Value) (args : List Passed) : Eval Value := do
  let picked ← pick "sort" args ["reverse"]
  match Sorting.sort Eval.less items with
  | .error cause => Eval.fail cause
  | .ok sorted =>
    let reversed ← truthy ((picked.lookup "reverse").getD (.value (.bool false)))
    return .array (if reversed then sorted.reverse else sorted)

theorem sortFilter_passed (items : List Value) :
    sortFilter items a.passed = Eval.sortFilter items a := by
  rw [sortFilter, pick_bind]
  refine bind_congr fun picked => ?_
  simp only [getD_ofSlots]
  rfl

/-- The names that the first two arguments give. -/
def attributeNames? : List Passed → Option (Text × Option Text)
  | [.value (.string attr)] => some (attr, none)
  | .value (.string attr) :: .value (.string test) :: _ => some (attr, some test)
  | _ => none

theorem attributeNames?_passed : attributeNames? a.passed = Eval.attributeNames? a := by
  obtain ⟨positional, keywords⟩ := a
  cases positional with
  | nil => cases keywords <;> rfl
  | cons v positional =>
    cases positional with
    | nil => cases v <;> cases keywords <;> rfl
    | cons w positional => cases v <;> cases w <;> rfl

theorem drop_passed (h : 2 ≤ a.positional.length) :
    a.passed.drop 2 = Args.passed { a with positional := a.positional.drop 2 } := by
  unfold Args.passed
  rw [List.drop_append_of_le_length (by simpa using h), List.map_drop]

theorem two_le_length {attr name : Text} (h : Eval.attributeNames? a = some (attr, some name)) :
    2 ≤ a.positional.length := by
  obtain ⟨positional, keywords⟩ := a
  cases positional with
  | nil => cases h
  | cons v positional =>
    cases positional with
    | nil => cases v <;> cases keywords <;> cases h
    | cons w positional => exact Nat.le_add_left 2 _

/-- The arguments after the second one are those of the test. -/
def selectByAttribute (host : Host) (scope : Scope) (filter : String) (keep : Bool)
    (items : List Value) (args : List Passed) : Eval Value := do
  match Eval.objectRefs? items with
  | none => Eval.fail (.attributeOperand filter)
  | some refs =>
    match attributeNames? args with
    | none => Eval.fail (.attributeNames filter)
    | some (attr, testName) =>
      let attributeOf (r : ObjectRef) : Eval Value :=
        return ((← Eval.slotsOf r).lookup attr).getD .undefined
      let selected ←
        match testName with
        | none => refs.filterM fun r => return (← Eval.truthy (← attributeOf r)) == keep
        | some name =>
          let (known, test) ← Eval.findTest scope name
          let args ← (args.drop 2).mapM asValue
          refs.filterM fun r =>
            return (← Eval.runTest host known test (← attributeOf r) args) == keep
      return .array (selected.map .object)

theorem selectByAttribute_passed (host : Host) (scope : Scope) (filter : String) (keep : Bool)
    (items : List Value) : selectByAttribute host scope filter keep items a.passed =
      Eval.selectByAttribute host scope filter keep items a := by
  unfold selectByAttribute Eval.selectByAttribute
  rw [attributeNames?_passed]
  cases Eval.objectRefs? items with
  | none => rfl
  | some refs =>
    cases hnames : Eval.attributeNames? a with
    | none => rfl
    | some names =>
      obtain ⟨attr, testName⟩ := names
      cases testName with
      | none => rfl
      | some name =>
        dsimp only
        rw [drop_passed a (two_le_length a hnames), mapM_asValue_passed]

def mapAttribute (attr : Value) (items : List Value) (args : List Passed) : Eval Value := do
  let (positional, kws) := split args
  let others := kws.names.filter fun k => k != "attribute" && k != "default"
  if !positional.isEmpty || !others.isEmpty then Eval.fail .mapExtraArguments
  match attr with
  | .string name =>
    let fallback := (kws.lookup "default").getD .undefined
    return .array (← items.mapM fun
      | .object r => return ((← Eval.slotsOf r).lookup name).getD fallback
      | v => Eval.fail (.mapItem v.kind))
  | _ => Eval.fail .mapAttribute

theorem mapAttribute_passed (attr : Value) (items : List Value) :
    mapAttribute attr items a.passed = Eval.mapAttribute attr items a := by
  unfold mapAttribute Eval.mapAttribute
  rewrite [split_passed]
  dsimp only
  rewrite [List.isEmpty_map]
  rfl

/-! ### Strings -/

def indentFilter (s : Text) (args : List Passed) : Eval Value := do
  let picked ← pick "indent" args ["width", "first", "blank"]
  let indentation : List Codepoint ←
    match picked.lookup "width" with
    | none => pure (List.replicate 4 (.ofChar ' '))
    | some (.value (.int n)) => do
      Eval.expectWidth n
      pure (List.replicate n.toNat (.ofChar ' '))
    | some (.value (.string s)) => pure s.toList
    | some p => Eval.fail (.indentWidth p.kind)
  let blank ← truthy ((picked.lookup "blank").getD (.value (.bool false)))
  let first ← truthy ((picked.lookup "first").getD (.value (.bool false)))
  return .ofPoints (Eval.indentLines indentation first blank s.toList)

theorem indentFilter_passed (s : Text) : indentFilter s a.passed = Eval.indentFilter s a := by
  rw [indentFilter, pick_bind]
  refine bind_congr fun picked => ?_
  simp only [getD_ofSlots]
  rw [lookup_ofSlots]
  cases picked.lookup "width" with
  | none => rfl
  | some w => cases w <;> rfl

/-! ### By name -/

def arrayFilter (host : Host) (scope : Scope) (name : Text) (items : List Value)
    (args : List Passed) : Eval Value :=
  match name.toString? with
  | some "length" => return .int items.length
  | some "list" => return .array items
  | some "first" => return items.head?.getD .undefined
  | some "last" => return items.getLast?.getD .undefined
  | some "reverse" => return .array items.reverse
  | some "sort" => sortFilter items args
  | some "unique" => return .array (← Eval.unique [] items)
  | some "selectattr" => selectByAttribute host scope "selectattr" true items args
  | some "rejectattr" => selectByAttribute host scope "rejectattr" false items args
  | _ => Eval.fail (.unknownFilter name (some .array))

theorem arrayFilter_passed (host : Host) (scope : Scope) (name : Text) (items : List Value) :
    arrayFilter host scope name items a.passed = Eval.arrayFilter host scope name items a := by
  unfold arrayFilter Eval.arrayFilter
  rewrite [sortFilter_passed, selectByAttribute_passed, selectByAttribute_passed]
  rfl

def stringFilter (name : Text) (s : Text) (args : List Passed) : Eval Value :=
  match name.toString? with
  | some "length" => return .int s.length
  | some "upper" => return .ofPoints (Text.uppercase s.toList)
  | some "lower" => return .ofPoints (Text.lowercase s.toList)
  | some "title" => return .ofPoints (Text.titleCase s.toList)
  | some "capitalize" => return .ofPoints (Text.capitalize s.toList)
  | some "trim" => callStringMethod s .strip args
  | some "replace" => callStringMethod s .replace args
  | some "indent" => indentFilter s args
  | _ => Eval.fail (.unknownFilter name (some .string))

theorem stringFilter_passed (name : Text) (s : Text) :
    stringFilter name s a.passed = Eval.stringFilter name s a := by
  unfold stringFilter Eval.stringFilter
  rewrite [callStringMethod_passed, callStringMethod_passed, indentFilter_passed]
  rfl

def filterOfKind (host : Host) (scope : Scope) (name : Text) (v : Value) (args : List Passed) :
    Eval Value :=
  match v with
  | .array items => arrayFilter host scope name items args
  | .string s => stringFilter name s args
  | v => Eval.filterOfKind host scope name v Args.none

theorem filterOfKind_passed (host : Host) (scope : Scope) (name : Text) (v : Value) :
    filterOfKind host scope name v a.passed = Eval.filterOfKind host scope name v a := by
  cases v with
  | array items => exact arrayFilter_passed a host scope name items
  | string s => exact stringFilter_passed a name s
  | _ => rfl

def plainFilter (host : Host) (scope : Scope) (name : Text) (v : Value) (args : List Passed) :
    Eval Passed :=
  match name.toString? with
  | some "tojson" => value <$> toJsonFilter v args
  | some "join" => value <$> joinFilter v args
  | some "int" => intFilter v args
  | some "float" => floatFilter v args
  | some "string" => return .value (.string (← Eval.textOf v))
  | some "default" => defaultFilter v args
  | _ => value <$> filterOfKind host scope name v args

theorem plainFilter_passed (host : Host) (scope : Scope) (name : Text) (v : Value) :
    plainFilter host scope name v a.passed = value <$> Eval.plainFilter host scope name v a := by
  unfold plainFilter Eval.plainFilter
  simp only [toJsonFilter_passed, joinFilter_passed, intFilter_passed, floatFilter_passed,
    defaultFilter_passed, filterOfKind_passed]
  split <;> simp_all

variable (breach : Breach)

/-- Applies a filter. What `map` makes an item of an array is settled. -/
def applyFilter (host : Host) (scope : Scope) (name : Text) (args : List Passed) (v : Value) :
    Eval Passed :=
  if args.dropLast.all isValue then
    match name.toString?, v with
    | some "map", .array items =>
      match (split args).2.lookup "attribute" with
      | some attr => value <$> mapAttribute attr items args
      | none =>
        match args with
        | .value (.string inner) :: rest => do
          let answers ← items.mapM fun item => do
            settle breach (← applyFilter host scope inner rest item)
          return .value (.array answers)
        | _ => Eval.fail .mapNeedsName
    | _, _ => plainFilter host scope name v args
  else value <$> breach.misplaced args

theorem applyFilter_of_not_map (host : Host) (scope : Scope) {name : Text} (args : List Passed)
    (v : Value) (hargs : args.dropLast.all isValue) (hname : name.toString? ≠ some "map") :
    applyFilter breach host scope name args v = plainFilter host scope name v args := by
  rw [applyFilter.eq_def, if_pos hargs]
  split
  · exact absurd (by assumption) hname
  · rfl

/-- One filter, where those that it applies to the items of an array are known. -/
theorem applyFilter_of_rest (host : Host) (scope : Scope) (keywords : Slots String Value)
    (name : Text) (positional : List Value) (v : Value)
    (hrest : ∀ w rest, positional = w :: rest → ∀ name v,
      applyFilter breach host scope name (Args.passed ⟨rest, keywords⟩) v =
        value <$> Eval.applyFilter host scope keywords name rest v) :
    applyFilter breach host scope name (Args.passed ⟨positional, keywords⟩) v =
      value <$> Eval.applyFilter host scope keywords name positional v := by
  have hplain := plainFilter_passed ⟨positional, keywords⟩ host scope name v
  by_cases hname : name.toString? = some "map"
  · rw [applyFilter.eq_def, if_pos (dropLast_passed _), split_passed, Eval.applyFilter.eq_def,
      hname]
    dsimp only
    cases v with
    | array items =>
      cases keywords.lookup "attribute" with
      | some attr => exact congrArg (value <$> ·) (mapAttribute_passed _ attr items)
      | none =>
        cases positional with
        | nil => cases keywords <;> rfl
        | cons w rest =>
          cases w with
          | string inner =>
            have hitems (item : Value) : (do
                settle breach (← applyFilter breach host scope inner
                  (Args.passed ⟨rest, keywords⟩) item)) =
                Eval.applyFilter host scope keywords inner rest item := by
              rw [hrest _ rest rfl, bind_map_left]
              exact bind_pure _
            show (do
              let answers ← items.mapM fun item => do
                settle breach (← applyFilter breach host scope inner
                  (Args.passed ⟨rest, keywords⟩) item)
              return value (.array answers)) = value <$> (do
                return Value.array (← items.mapM (Eval.applyFilter host scope keywords inner rest)))
            rw [funext hitems, map_bind]
            rfl
          | _ => rfl
    | _ => exact hplain
  · rw [applyFilter_of_not_map breach host scope _ v (dropLast_passed _) hname,
      Eval.applyFilter_of_not_map host scope keywords positional v hname]
    exact hplain

theorem applyFilter_passed (host : Host) (scope : Scope) (keywords : Slots String Value)
    (name : Text) (positional : List Value) (v : Value) :
    applyFilter breach host scope name (Args.passed ⟨positional, keywords⟩) v =
      value <$> Eval.applyFilter host scope keywords name positional v := by
  induction positional generalizing name v with
  | nil => exact applyFilter_of_rest breach host scope keywords name [] v nofun
  | cons w positional ih =>
    refine applyFilter_of_rest breach host scope keywords name _ v ?_
    rintro _ _ ⟨⟩
    exact ih

end ChatTemplate.Passed
