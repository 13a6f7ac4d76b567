import ChatTemplate.Eval.Basic
import ChatTemplate.Proofs.Eval.Outcome

/-!
# Arrays that are referred to

A `Value` is an array by what it holds. In a heap an array is a thing of its own, as an object is:
it has a list, as an object has a dictionary, and values refer to it. Lists and dictionaries can be
changed in place; those that a call makes for its arguments, or a filter for its answer, belong to
no array and no object yet.

`Heap.Run` is evaluation in a heap. What a heap looks like to a template is a store (`Heap.store`).
-/

namespace ChatTemplate

abbrev ListRef := Nat
abbrev DictRef := Nat
abbrev ArrayRef := Nat

/-- A value in a heap. -/
inductive Item
  | undefined
  | null
  | bool (b : Bool)
  | int (i : Int)
  | float (f : Float)
  | string (s : Text)
  | array (ref : ArrayRef)
  | object (ref : ObjectRef)
  | function (ref : FunctionRef)

def Item.kind : Item → ValueKind
  | .undefined => .undefined
  | .null => .null
  | .bool _ => .bool
  | .int _ => .int
  | .float _ => .float
  | .string _ => .string
  | .array _ => .array
  | .object _ => .object
  | .function _ => .function

/-- The value that an item stands for, given the values in each array. -/
def Item.toValue (inArray : ArrayRef → List Value) : Item → Value
  | .undefined => .undefined
  | .null => .null
  | .bool b => .bool b
  | .int i => .int i
  | .float f => .float f
  | .string s => .string s
  | .array r => .array (inArray r)
  | .object r => .object r
  | .function r => .function r

/-- A string of the code points of a list. -/
def Item.ofPoints (cs : List Codepoint) : Item := .string (.ofList cs)

structure HeapFrame where
  vars : Slots String Item
  tests : Slots String Test

/-- The assignment of an item to a member of an object. -/
structure MemberAssignment where
  object : ObjectRef
  name : Text
  item : Item

structure Heap where
  lists : Array (List Item)
  dicts : Array (Slots Text Item)
  /-- The list of each array. -/
  arrays : Array ListRef
  /-- The dictionary of each object. -/
  objects : Array DictRef
  frames : Array HeapFrame
  functions : Array Function
  /-- The assignments to members that were made so far; only `putSlot` adds to them. -/
  assignments : List MemberAssignment

namespace Slots
variable {κ α β : Type}

def mapValues (f : α → β) (s : Slots κ α) : Slots κ β := s.map fun (k, x) => (k, f x)

/-- Takes a name away. -/
def remove [DecidableEq κ] (name : κ) (s : Slots κ α) : Slots κ α :=
  s.filter fun (k, _) => k != name

/-- What becomes of an object by the assignments to it. -/
def afterAssignments (r : ObjectRef) (s : Slots Text Item) (as : List MemberAssignment) :
    Slots Text Item :=
  as.foldl (fun s a => if a.object = r then s.put a.name a.item else s) s

end Slots

namespace Heap

def list (h : Heap) (l : ListRef) : List Item := h.lists[l]?.getD []

def dict (h : Heap) (d : DictRef) : Slots Text Item := h.dicts[d]?.getD []

/-- The items of an array. -/
def items (h : Heap) (r : ArrayRef) : List Item := (h.arrays[r]?.map h.list).getD []

/-- The slots of an object. -/
def slots (h : Heap) (r : ObjectRef) : Slots Text Item := (h.objects[r]?.map h.dict).getD []

def frame (h : Heap) (r : FrameRef) : HeapFrame := h.frames[r]?.getD ⟨[], []⟩

/-! ### What a heap looks like -/

/-- The values in an array, where arrays nest at most `n` deep. -/
def valuesWithin (h : Heap) : Nat → ArrayRef → List Value
  | 0, _ => []
  | n + 1, r => (h.items r).map (Item.toValue (h.valuesWithin n))

/-- The value that an item stands for. An array holds only arrays that were there before it, so that
they nest no deeper than there are any. -/
def value (h : Heap) (x : Item) : Value := x.toValue (h.valuesWithin h.arrays.size)

def store (h : Heap) : Store where
  frames := h.frames.map fun f => ⟨f.vars.mapValues h.value, f.tests⟩
  objects := h.objects.map fun d => (h.dict d).mapValues h.value
  functions := h.functions

/-! ### Evaluation -/

abbrev Run (α : Type) := ExceptT Fault (StateM Heap) α

namespace Run
variable {α β : Type}

/-- What a run answers in the heap `h`. -/
def result (x : Run α) (h : Heap) : Except Fault α := (x.run.run h).1

/-- The heap that a run leaves, whether it answers or fails. -/
def after (x : Run α) (h : Heap) : Heap := (x.run.run h).2

theorem result_bind (x : Run α) (f : α → Run β) (h : Heap) :
    (x >>= f).result h =
      match x.result h with
      | .ok a => (f a).result (x.after h)
      | .error e => .error e := by
  simp only [after, result, ExceptT.run_bind, StateT.run_bind]
  rcases x.run.run h with ⟨r, h'⟩
  cases r <;> rfl

theorem after_bind (x : Run α) (f : α → Run β) (h : Heap) :
    (x >>= f).after h =
      match x.result h with
      | .ok a => (f a).after (x.after h)
      | .error _ => x.after h := by
  simp only [after, result, ExceptT.run_bind, StateT.run_bind]
  rcases x.run.run h with ⟨r, h'⟩
  cases r <;> rfl

theorem result_get (h : Heap) : (get : Run Heap).result h = .ok h := rfl

theorem after_get (h : Heap) : (get : Run Heap).after h = h := rfl

theorem after_modify (f : Heap → Heap) (h : Heap) : (modify f : Run Unit).after h = f h := rfl

theorem after_tryCatch_throw (x : Run α) (g : Fault → Fault) (h : Heap) :
    (tryCatch x fun f => throw (g f)).after h = x.after h := by
  unfold after ExceptT.run StateT.run
  simp only [tryCatch, tryCatchThe, MonadExceptOf.tryCatch, ExceptT.tryCatch, ExceptT.mk, Bind.bind,
    StateT.bind]
  rcases x h with ⟨r, h'⟩
  cases r <;> rfl

theorem result_tryCatch_throw (x : Run α) (g : Fault → Fault) (h : Heap) :
    (tryCatch x fun f => throw (g f)).result h = (x.result h).mapError g := by
  unfold result ExceptT.run StateT.run
  simp only [tryCatch, tryCatchThe, MonadExceptOf.tryCatch, ExceptT.tryCatch, ExceptT.mk, Bind.bind,
    StateT.bind]
  rcases x h with ⟨r, h'⟩
  cases r <;> rfl

end Run

variable {α : Type}

def fail (cause : Cause) : Run α := throw (.error cause none)

def escape (why : Escape) : Run α := throw (.escape why)

/-! ### Looking -/

/-- The answer to a question that only looks at values: it sees what the heap looks like. -/
def look (question : Eval α) : Run α := do
  match question.result (← get).store with
  | .ok a => return a
  | .error f => throw f

def valueOf (x : Item) : Run Value := return (← get).value x

def valuesOf (xs : List Item) : Run (List Value) := return xs.map (← get).value

def textOf (x : Item) : Run Text := do look (Eval.textOf (← valueOf x))

def truthy (x : Item) : Run Bool := do look (Eval.truthy (← valueOf x))

def listOf (l : ListRef) : Run (List Item) := return (← get).list l

def dictOf (d : DictRef) : Run (Slots Text Item) := return (← get).dict d

def itemsOf (r : ArrayRef) : Run (List Item) := return (← get).items r

def slotsOf (r : ObjectRef) : Run (Slots Text Item) := return (← get).slots r

/-! ### Making -/

def newList (xs : List Item) : Run ListRef :=
  modifyGet fun h => (h.lists.size, { h with lists := h.lists.push xs })

def newDict (s : Slots Text Item) : Run DictRef :=
  modifyGet fun h => (h.dicts.size, { h with dicts := h.dicts.push s })

/-- A new array that has a list. -/
def newArray (l : ListRef) : Run Item :=
  modifyGet fun h => (.array h.arrays.size, { h with arrays := h.arrays.push l })

/-- A new object that has a dictionary. -/
def newObject (d : DictRef) : Run Item :=
  modifyGet fun h => (.object h.objects.size, { h with objects := h.objects.push d })

def newFunction (f : Function) : Run Item :=
  modifyGet fun h => (.function h.functions.size, { h with functions := h.functions.push f })

/-- A new array of a new list. -/
def arrayOf (xs : List Item) : Run Item := do newArray (← newList xs)

/-- A new object of a new dictionary. -/
def objectOf (s : Slots Text Item) : Run Item := do newObject (← newDict s)

mutual

/-- A value whose arrays are all new. -/
def fresh : Value → Run Item
  | .undefined => return .undefined
  | .null => return .null
  | .bool b => return .bool b
  | .int i => return .int i
  | .float f => return .float f
  | .string s => return .string s
  | .array vs => do arrayOf (← freshItems vs)
  | .object r => return .object r
  | .function r => return .function r

def freshItems : List Value → Run (List Item)
  | [] => return []
  | v :: vs => do
    let x ← fresh v
    return x :: (← freshItems vs)

end

/-- What an operation makes that only looks at its operands. -/
def made (operation : Eval Value) : Run Item := do fresh (← look operation)

/-! ### Changing in place -/

/-- Adds items to the end of a list. -/
def append (l : ListRef) (xs : List Item) : Run Unit :=
  modify fun h => { h with lists := h.lists.modify l (· ++ xs) }

def reverse (l : ListRef) : Run Unit :=
  modify fun h => { h with lists := h.lists.modify l List.reverse }

/-- Gives a name in a dictionary a value. -/
def put (d : DictRef) (name : Text) (x : Item) : Run Unit :=
  modify fun h => { h with dicts := h.dicts.modify d (·.put name x) }

/-- Takes a name out of a dictionary, with its value. -/
def pop (d : DictRef) (name : Text) : Run (Option Item) :=
  modifyGet fun h =>
    ((h.dict d).lookup name, { h with dicts := h.dicts.modify d (·.remove name) })

/-- Assigns a value to a member of an object, as only a statement does that sets a member. -/
def putSlot (r : ObjectRef) (name : Text) (x : Item) : Run Unit :=
  modify fun h =>
    match h.objects[r]? with
    | some d => { h with
        dicts := h.dicts.modify d (·.put name x)
        assignments := h.assignments ++ [⟨r, name, x⟩] }
    | none => h

/-! ### Scopes -/

/-- A new scope inside `s`. -/
def innerScope (s : Scope) : Run Scope :=
  modifyGet fun h => (⟨h.frames.size, s.chain⟩, { h with frames := h.frames.push ⟨[], []⟩ })

def bind (s : Scope) (name : String) (x : Item) : Run Unit :=
  modify fun h =>
    { h with frames := h.frames.modify s.inner fun f => { f with vars := f.vars.put name x } }

def lookup (s : Scope) (name : String) : Run Item := do
  let h ← get
  return (s.chain.findSome? fun r => (h.frame r).vars.lookup name).getD .undefined

end Heap
end ChatTemplate
