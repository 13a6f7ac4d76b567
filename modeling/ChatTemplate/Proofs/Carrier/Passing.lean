import ChatTemplate.Eval.Calls
import ChatTemplate.Proofs.Store.Basic

/-!
# Keywords in the list of arguments

Another way to hand over arguments: one list, in which all the keywords of a call, if there are any,
are one argument, the last one (`Args.passed`). It is an argument like the others, which a function
may take for a value, so that a function might bind, keep or answer it. The functions are written for
such lists here. Where a value is needed, an argument has to be settled; what happens to keywords
there is left open (`Breach`). On the lists that calls hand over, each function does what it does on
arguments whose keywords are kept apart.
-/

namespace ChatTemplate

/-- An argument as it is handed over. -/
inductive Passed
  | value (v : Value)
  | keywords (kws : Slots String Value)

/-- What happens where keywords are not what they should be; nothing is known of it. -/
structure Breach where
  /-- Keywords are to be bound to a name, to be an item or slot, or to be what is answered. -/
  stray (keywords : Slots String Value) : Eval Value
  /-- A list of arguments has keywords before its end. -/
  misplaced (args : List Passed) : Eval Value

/-- The list that hands over the arguments of a call. -/
def Args.passed (a : Args) : List Passed :=
  a.positional.map .value ++ if a.keywords.isEmpty then [] else [.keywords a.keywords]

namespace Passed

def isValue : Passed → Bool
  | .value _ => true
  | .keywords _ => false

def kind : Passed → ValueKind
  | .value v => v.kind
  | .keywords _ => .keywords

/-- The argument as something to look at: keywords are an object. -/
def asValue : Passed → Eval Value
  | .value v => return v
  | .keywords kws => Eval.newObject (kws.map fun (k, v) => (.ofString k, v))

def truthy : Passed → Eval Bool
  | .value v => Eval.truthy v
  | .keywords kws => return !kws.isEmpty

/-- Is the argument an object? Keywords are. -/
def isObject : Passed → Bool
  | .value (.object _) | .keywords _ => true
  | _ => false

/-- The argument as a value that is kept. -/
def settle (breach : Breach) : Passed → Eval Value
  | .value v => return v
  | .keywords kws => breach.stray kws

/-- The positional arguments and the keywords of a list. -/
def split (args : List Passed) : List Passed × Slots String Value :=
  match args.getLast? with
  | some (.keywords kws) => (args.dropLast, kws)
  | _ => (args, [])

/-- Hands a list over, if its keywords are its last argument. -/
def deliver (breach : Breach) (args : List Passed) (f : List Passed → Eval Passed) : Eval Passed :=
  if args.dropLast.all isValue then f args else .value <$> breach.misplaced args

variable (a : Args)

theorem split_passed : split a.passed = (a.positional.map .value, a.keywords) := by
  obtain ⟨positional, keywords⟩ := a
  cases keywords with
  | nil =>
    simp only [split, Args.passed, List.isEmpty_nil, if_true, List.append_nil, List.getLast?_map]
    cases positional.getLast? <;> rfl
  | cons e keywords =>
    simp [split, Args.passed]

theorem dropLast_passed : a.passed.dropLast.all isValue := by
  obtain ⟨positional, keywords⟩ := a
  refine List.all_eq_true.mpr fun p hp => ?_
  have hp' : p ∈ positional.map Passed.value := by
    cases keywords with
    | nil => exact List.dropLast_subset _ (by simpa [Args.passed] using hp)
    | cons e keywords => simpa [Args.passed] using hp
  obtain ⟨v, -, rfl⟩ := List.mem_map.mp hp'
  rfl

theorem deliver_passed (breach : Breach) (f : List Passed → Eval Passed) :
    deliver breach a.passed f = f a.passed :=
  if_pos (dropLast_passed a)

theorem length_passed : a.passed.length = a.count := by
  obtain ⟨positional, keywords⟩ := a
  cases keywords <;> simp [Args.passed, Args.count]

theorem mapM_asValue_value (vs : List Value) : (vs.map Passed.value).mapM asValue = pure vs := by
  induction vs with
  | nil => rfl
  | cons v vs ih => rw [List.map_cons, List.mapM_cons, ih, asValue, pure_bind, pure_bind]

theorem mapM_asValue_passed : a.passed.mapM asValue = a.values := by
  obtain ⟨positional, keywords⟩ := a
  cases keywords with
  | nil => simpa [Args.passed, Args.values] using mapM_asValue_value positional
  | cons e keywords =>
    simp only [Args.passed, Args.values, List.isEmpty_cons, Bool.false_eq_true, if_false,
      List.mapM_append, mapM_asValue_value, pure_bind, List.mapM_cons, List.mapM_nil, bind_assoc]
    rfl

/-! ### Picking arguments -/

/-- The arguments by the names of the parameters they are for. -/
def pick (method : String) (args : List Passed) (params : List String) :
    Eval (Slots String Passed) := do
  let (positional, kws) := split args
  if params.length < positional.length then
    Eval.fail (.arity method 0 params.length positional.length)
  match kws.find? fun (k, _) => !params.contains k with
  | some (k, _) => Eval.fail (.unexpectedKeyword method k)
  | none => return Slots.putAll (params.zip positional) (kws.map fun (k, v) => (k, .value v))

/-- Values as arguments. -/
def ofSlots (s : Slots String Value) : Slots String Passed := s.map fun (k, v) => (k, .value v)

theorem putAll_ofSlots (s es : Slots String Value) :
    Slots.putAll (ofSlots s) (ofSlots es) = ofSlots (s.putAll es) :=
  Slots.putAll_map Passed.value s es

theorem lookup_ofSlots (s : Slots String Value) (name : String) :
    (ofSlots s).lookup name = (s.lookup name).map .value := by
  induction s with
  | nil => rfl
  | cons e s ih =>
    obtain ⟨k, v⟩ := e
    simp only [ofSlots, List.map_cons, List.lookup_cons]
    split
    · rfl
    · exact ih

theorem pick_passed (method : String) (params : List String) :
    pick method a.passed params = ofSlots <$> a.pick method params := by
  have hzip : params.zip (a.positional.map Passed.value) = ofSlots (params.zip a.positional) := by
    rw [List.zip_map_right]
    rfl
  unfold pick Args.pick
  rw [split_passed]
  dsimp only
  rw [List.length_map, hzip]
  split
  · rfl
  · cases a.keywords.find? fun (k, _) => !params.contains k with
    | some e => rfl
    | none => exact congrArg pure (putAll_ofSlots _ _)

/-- Whatever is done with the arguments that are picked. -/
theorem pick_bind {α : Type} (method : String) (params : List String)
    (f : Slots String Passed → Eval α) :
    (pick method a.passed params >>= f) = a.pick method params >>= fun picked => f (ofSlots picked) := by
  rw [pick_passed, bind_map_left]

/-- An argument that has to be a value of some kind. -/
def expect {α : Type} (otherwise : Cause) (f : Value → Eval α) : Passed → Eval α
  | .value v => f v
  | .keywords _ => Eval.fail otherwise

def asString (method : String) : Passed → Eval Text :=
  expect (.argumentNotString method .keywords) (Eval.asString method)

def asString? (method : String) : Option Passed → Eval (Option Text)
  | none => return none
  | some p => expect (.argumentNotString method .keywords) (fun v => Eval.asString? method (some v)) p

def asLimit (method : String) : Option Passed → Eval Int
  | none => return -1
  | some p => expect (.argumentNotInt method .keywords) (Eval.asInt method) p

theorem asString?_map (method : String) (v : Option Value) :
    asString? method (v.map .value) = Eval.asString? method v := by
  cases v <;> rfl

theorem asLimit_map (method : String) (v : Option Value) :
    asLimit method (v.map .value) = Eval.asLimit method v := by
  cases v <;> rfl

def expectCount (method : String) (args : List Passed) (least most : Nat) : Eval Unit :=
  if least ≤ args.length && args.length ≤ most then return ()
  else Eval.fail (.arity method least most args.length)

theorem expectCount_passed (method : String) (least most : Nat) :
    expectCount method a.passed least most = a.expectCount method least most := by
  rw [expectCount, length_passed]
  rfl

end Passed
end ChatTemplate
