import ChatTemplate.Proofs.Carrier.Passing

/-!
# Functions on lists of arguments

The methods of strings and objects, the global functions, those of the host and macros, on lists in
which keywords are an argument. A function that makes its answer itself answers a value; one that may
answer an argument answers what is `Passed`.
-/

namespace ChatTemplate.Passed
variable (a : Args)

/-! ### Methods of strings -/

def stripped (method : String) (how : (Codepoint → Bool) → List Codepoint → List Codepoint)
    (s : Text) (args : List Passed) : Eval Value := do
  let picked ← pick method args ["chars"]
  match ← asString? method (picked.lookup "chars") with
  | none => return .ofPoints (how Text.isBlank s.toList)
  | some chars => return .ofPoints (how chars.toList.contains s.toList)

theorem stripped_passed (method : String)
    (how : (Codepoint → Bool) → List Codepoint → List Codepoint) (s : Text) :
    stripped method how s a.passed = Eval.stripped method how s a := by
  rw [stripped, pick_bind]
  refine bind_congr fun picked => ?_
  rewrite [lookup_ofSlots, asString?_map]
  rfl

def affixed (method : String) (fits : List Codepoint → List Codepoint → Bool) (s : Text)
    (args : List Passed) : Eval Value := do
  expectCount method args 1 1
  match args with
  | [.value (.array items)] =>
    let affixes ← items.mapM (Eval.asString method)
    return .bool (affixes.any fun x => fits x.toList s.toList)
  | [p] => return .bool (fits (← asString method p).toList s.toList)
  | _ => Eval.fail (.argumentNotString method .keywords)

theorem affixed_passed (method : String) (fits : List Codepoint → List Codepoint → Bool)
    (s : Text) : affixed method fits s a.passed = Eval.affixed method fits s a := by
  unfold affixed Eval.affixed
  rw [expectCount_passed, Args.expectCount]
  split
  case isFalse => rfl
  case isTrue hcount =>
    rw [pure_bind, pure_bind]
    obtain ⟨positional, keywords⟩ := a
    -- One argument is counted: a single value, or the keywords alone.
    cases positional with
    | nil => cases keywords <;> rfl
    | cons v positional =>
      cases positional with
      | nil =>
        cases keywords with
        | nil => cases v <;> rfl
        | cons e keywords => simp [Args.count] at hcount
      | cons w positional =>
        simp [Args.count] at hcount
        omega

def splitString (s : Text) (args : List Passed) : Eval Value := do
  let picked ← pick "split" args ["sep", "maxsplit"]
  let limit ← asLimit "split" (picked.lookup "maxsplit")
  let sep ← asString? "split" (picked.lookup "sep")
  let n ← Eval.asSize limit s.length
  match sep with
  | none => return .array ((Text.splitBlanks n s.toList).map .ofPoints)
  | some sep =>
    if sep.isEmpty then Eval.badValue .emptySeparator
    else return .array ((Text.splitOn sep.toList n s.toList).map .ofPoints)

theorem splitString_passed (s : Text) : splitString s a.passed = Eval.splitString s a := by
  rw [splitString, pick_bind]
  refine bind_congr fun picked => ?_
  rewrite [lookup_ofSlots, lookup_ofSlots, asLimit_map, asString?_map]
  rfl

def replaceInString (s : Text) (args : List Passed) : Eval Value := do
  let picked ← pick "replace" args ["old", "new", "count"]
  match picked.lookup "old", picked.lookup "new" with
  | some old, some new =>
    let limit ← asLimit "replace" (picked.lookup "count")
    let old ← asString "replace" old
    let new ← asString "replace" new
    let n ← Eval.asSize limit (s.length + 1)
    return .ofPoints (Text.replace old.toList new.toList n s.toList)
  | _, _ => Eval.fail (.tooFewArguments "replace" 2)

theorem replaceInString_passed (s : Text) :
    replaceInString s a.passed = Eval.replaceInString s a := by
  rw [replaceInString, pick_bind]
  refine bind_congr fun picked => ?_
  rw [lookup_ofSlots, lookup_ofSlots, lookup_ofSlots, asLimit_map]
  cases picked.lookup "old" with
  | none => rfl
  | some old => cases picked.lookup "new" <;> rfl

def mapped (m : StringMethod) (f : List Codepoint → List Codepoint) (s : Text)
    (args : List Passed) : Eval Value := do
  expectCount m.name args 0 0
  return .ofPoints (f s.toList)

theorem mapped_passed (m : StringMethod) (f : List Codepoint → List Codepoint) (s : Text) :
    mapped m f s a.passed = Eval.mapped m f s a := by
  rw [mapped, expectCount_passed]
  rfl

def callStringMethod (s : Text) (m : StringMethod) (args : List Passed) : Eval Value :=
  match m with
  | .upper => mapped m Text.uppercase s args
  | .lower => mapped m Text.lowercase s args
  | .title => mapped m Text.titleCase s args
  | .capitalize => mapped m Text.capitalize s args
  | .strip => stripped m.name Text.strip s args
  | .lstrip => stripped m.name Text.stripLeft s args
  | .rstrip => stripped m.name Text.stripRight s args
  | .startswith => affixed m.name List.isPrefixOf s args
  | .endswith => affixed m.name List.isSuffixOf s args
  | .split => splitString s args
  | .replace => replaceInString s args

theorem callStringMethod_passed (s : Text) (m : StringMethod) :
    callStringMethod s m a.passed = Eval.callStringMethod s m a := by
  cases m with
  | strip | lstrip | rstrip => exact stripped_passed a _ _ s
  | startswith | endswith => exact affixed_passed a _ _ s
  | split => exact splitString_passed a s
  | replace => exact replaceInString_passed a s
  | _ => exact mapped_passed a _ _ s

/-! ### Methods of objects -/

def callObjectMethod (r : ObjectRef) (m : ObjectMethod) (args : List Passed) : Eval Passed := do
  match m with
  | .get =>
    let picked ← pick m.name args ["key", "default"]
    match picked.lookup "key" with
    | none => Eval.fail (.tooFewArguments m.name 1)
    | some key =>
      let name ← asString m.name key
      match (← Eval.slotsOf r).lookup name with
      | some v => return .value v
      | none => return (picked.lookup "default").getD (.value .null)
  | .items =>
    expectCount m.name args 0 0
    return .value (Eval.pairs (← Eval.slotsOf r))
  | .keys =>
    expectCount m.name args 0 0
    return .value (.array ((← Eval.slotsOf r).names.map .string))
  | .values =>
    expectCount m.name args 0 0
    return .value (.array ((← Eval.slotsOf r).map Prod.snd))

theorem callObjectMethod_passed (r : ObjectRef) (m : ObjectMethod) :
    callObjectMethod r m a.passed = value <$> Eval.callObjectMethod r m a := by
  cases m with
  | get =>
    rw [callObjectMethod, pick_bind, Eval.callObjectMethod, map_bind]
    refine bind_congr fun picked => ?_
    rw [lookup_ofSlots, lookup_ofSlots]
    cases picked.lookup "key" with
    | none => rfl
    | some key =>
      simp only [Option.map_some, map_bind]
      refine bind_congr fun name => bind_congr fun slots => ?_
      cases slots.lookup name with
      | some v => rfl
      | none => cases picked.lookup "default" <;> rfl
  | items | keys | values =>
    simp only [callObjectMethod, Eval.callObjectMethod, expectCount_passed, map_bind, map_pure]

/-! ### Global functions -/

def callRange (args : List Passed) : Eval Value := do
  if args.length < 1 || 3 < args.length then Eval.fail .rangeArity
  let bounds ← args.mapM (expect (.rangeArgument .keywords) Eval.rangeArgument)
  let (start, stop, step) :=
    match bounds with
    | [stop] => (0, stop, 1)
    | [start, stop] => (start, stop, 1)
    | [start, stop, step] => (start, stop, step)
    | _ => (0, 0, 1)
  if step == 0 then Eval.fail .rangeStep
  return .array ((Slice.progression start stop step).map .int)

theorem callRange_passed : callRange a.passed = Eval.callRange a := by
  unfold callRange Eval.callRange
  rw [length_passed]
  split
  · rfl
  rw [Args.passed, List.mapM_append, List.mapM_map, bind_assoc]
  refine bind_congr fun bounds => ?_
  cases a.keywords with
  | nil =>
    simp only [List.isEmpty_nil, if_true, List.mapM_nil, pure_bind, List.append_nil]
    rfl
  | cons e keywords => rfl

/-- The message is the first argument, whatever it is. -/
def callRaise (args : List Passed) : Eval Value := do
  match ← args.mapM asValue with
  | [] => Eval.fail (.raised "Template raised an exception")
  | v :: _ => Eval.fail (.raised (← Eval.textOf v))

theorem callRaise_passed : callRaise a.passed = Eval.callRaise a := by
  rw [callRaise, mapM_asValue_passed]
  rfl

def callNamespace (args : List Passed) : Eval Passed :=
  let (positional, kws) := split args
  match positional with
  | [] => value <$> Eval.newObject (kws.map fun (k, v) => (.ofString k, v))
  | [p] => if kws.isEmpty && p.isObject then return p else Eval.fail .namespaceArguments
  | _ => Eval.fail .namespaceArguments

theorem callNamespace_passed : callNamespace a.passed = value <$> Eval.callNamespace a := by
  unfold callNamespace Eval.callNamespace
  rw [split_passed]
  obtain ⟨positional, keywords⟩ := a
  cases positional with
  | nil => rfl
  | cons v positional =>
    cases positional with
    | nil => cases keywords <;> cases v <;> rfl
    | cons w positional => cases v <;> rfl

def callHost (host : Host) (f : HostFunction) (args : List Passed) : Eval Value := do
  let (positional, kws) := split args
  let positional ← positional.mapM fun p => do Eval.toHost (← p.asValue)
  let keywords ← kws.mapM fun (k, v) => return (k, ← Eval.toHost v)
  match host.call f positional keywords with
  | .ok h => Eval.ofHost h
  | .error e => throw e

theorem callHost_passed (host : Host) (f : HostFunction) :
    callHost host f a.passed = Eval.callHost host f a := by
  unfold callHost Eval.callHost
  rw [split_passed]
  dsimp only
  rw [List.mapM_map]
  simp only [asValue]
  rfl

/-! ### Macros -/

variable (breach : Breach) (ev : Evaluator)

/-- Binds the parameters of a macro; an argument is settled where it is bound. -/
def bindParams (scope : Scope) (kws : Slots String Value) : List Param → List Passed → Eval Unit
  | [], _ => return ()
  | p :: ps, positional => do
    let v ←
      match positional, kws.lookup p.name, p.default with
      | x :: _, _, _ => settle breach x
      | [], some v, _ => pure v
      | [], none, some e => ev.expr e scope
      | [], none, none => Eval.fail (.missingArgument p.name)
    Eval.bind scope p.name v
    bindParams scope kws ps positional.tail

theorem bindParams_map (scope : Scope) (kws : Slots String Value) (ps : List Param)
    (positional : List Value) :
    bindParams breach ev scope kws ps (positional.map value) =
      Eval.bindParams ev scope kws ps positional := by
  induction ps generalizing positional with
  | nil => rfl
  | cons p ps ih =>
    have hrest (positional : List Value) (v : Value) :
        (do Eval.bind scope p.name v; bindParams breach ev scope kws ps (positional.map value)) =
          (do Eval.bind scope p.name v; Eval.bindParams ev scope kws ps positional) :=
      bind_congr fun _ => ih positional
    unfold bindParams Eval.bindParams
    cases positional with
    | cons v positional => exact hrest positional v
    | nil =>
      cases kws.lookup p.name with
      | some v => exact hrest [] v
      | none =>
        cases p.default with
        | some e => exact bind_congr (hrest [])
        | none => rfl

def callMacro (name : String) (params : List Param) (body : List Stmt) (args : List Passed)
    (scope : Scope) : Eval Value := do
  let inner ← Eval.innerScope scope
  let (positional, kws) := split args
  if params.length < positional.length then
    Eval.fail (.macroArity name params.length positional.length)
  match kws.names.find? fun k => !(params.map Param.name).contains k with
  | some k => Eval.fail (.macroKeyword name k)
  | none => pure ()
  bindParams breach ev inner kws params positional
  return .string (← Eval.closedBlock ev inner body)

theorem callMacro_passed (name : String) (params : List Param) (body : List Stmt) (scope : Scope) :
    callMacro breach ev name params body a.passed scope =
      Eval.callMacro ev name params body a scope := by
  unfold callMacro Eval.callMacro
  refine bind_congr fun inner => ?_
  rewrite [split_passed]
  dsimp only
  rewrite [List.length_map, bindParams_map]
  rfl

/-- Runs the body of a call block; an argument is settled where it is bound. -/
def callCaller (params : List String) (body : List Stmt) (scope : Scope) (args : List Passed) :
    Eval Value := do
  let inner ← Eval.innerScope scope
  let (positional, _) := split args
  let missing := List.replicate (params.length - positional.length) (value .undefined)
  (params.zip (positional ++ missing)).forM fun (name, p) => do
    Eval.bind inner name (← settle breach p)
  return .string (← Eval.closedBlock ev inner body)

theorem callCaller_passed (params : List String) (body : List Stmt) (scope : Scope) :
    callCaller breach ev params body scope a.passed = Eval.callCaller ev params body scope a := by
  have hmissing (n : Nat) : a.positional.map value ++ List.replicate n (value .undefined) =
      (a.positional ++ List.replicate n Value.undefined).map value := by
    rw [List.map_append, List.map_replicate]
  unfold callCaller Eval.callCaller Eval.bindAll
  rw [split_passed]
  simp only [List.length_map, hmissing, List.zip_map_right, List.forM_eq_forM, List.forM_map]
  rfl

/-- Calls a function from the given scope. -/
def callFunction (host : Host) (f : Function) (args : List Passed) (scope : Scope) : Eval Passed :=
  deliver breach args fun args =>
    match f with
    | .range => value <$> callRange args
    | .raiseException => value <$> callRaise args
    | .newNamespace => callNamespace args
    | .stringMethod s m => value <$> callStringMethod s m args
    | .objectMethod r m => callObjectMethod r m args
    | .defined name params body => value <$> callMacro breach ev name params body args scope
    | .caller params body home => value <$> callCaller breach ev params body home args
    | .host f => value <$> callHost host f args

theorem callFunction_passed (host : Host) (f : Function) (scope : Scope) :
    callFunction breach ev host f a.passed scope =
      value <$> Eval.callFunction ev host f a scope := by
  rw [callFunction, deliver_passed]
  cases f with
  | range => exact congrArg (value <$> ·) (callRange_passed a)
  | raiseException => exact congrArg (value <$> ·) (callRaise_passed a)
  | newNamespace => exact callNamespace_passed a
  | stringMethod s m => exact congrArg (value <$> ·) (callStringMethod_passed a s m)
  | objectMethod r m => exact callObjectMethod_passed a r m
  | defined name params body =>
    exact congrArg (value <$> ·) (callMacro_passed a breach ev name params body scope)
  | caller params body home =>
    exact congrArg (value <$> ·) (callCaller_passed a breach ev params body home)
  | host f => exact congrArg (value <$> ·) (callHost_passed a host f)

end ChatTemplate.Passed
