import ChatTemplate.Datum

/-! # Values of the host -/

namespace ChatTemplate

/-- The keys that a mapping of the host may have. -/
inductive HostKey
  | null
  | bool (b : Bool)
  | int (i : Int)
  | float (f : Float)
  | string (s : Text)
  /-- A key of another type, by what tells it from all other keys and by its text. -/
  | other (id : String) (text : Text)

inductive HostValue
  | null
  | bool (b : Bool)
  | int (i : Int)
  | float (f : Float)
  | string (s : Text)
  | list (items : List HostValue)
  | tuple (items : List HostValue)
  | map (entries : List (HostKey × HostValue))
  | callable (function : HostFunction)
  /-- A value of a type that templates do not know. -/
  | foreign (typeName : String)
  /-- A value of the template's own. -/
  | value (v : Value)

instance : Inhabited HostValue := ⟨.null⟩

/-- The amount of a key that is a number or truth value. -/
def HostKey.amount? : HostKey → Option Double
  | .bool b => some (Double.ofInt (if b then 1 else 0))
  | .int i => some (Double.ofInt i)
  | .float f => some (Double.ofFloat f)
  | _ => none

/-- Are two keys one to the host? Numbers and truth values are told apart by their amounts. -/
def HostKey.same (a b : HostKey) : Bool :=
  match a, b with
  | .null, .null => true
  | .string s, .string t => s == t
  | .other id _, .other id' _ => id == id'
  | a, b =>
    match a.amount?, b.amount? with
    | some x, some y => x.compare? y == some .eq
    | _, _ => false

/-- Gives a key a value in a mapping of the host; a key that is there stays as it is. -/
def HostValue.putEntry (k : HostKey) (h : HostValue) :
    List (HostKey × HostValue) → List (HostKey × HostValue)
  | [] => [(k, h)]
  | (k', h') :: rest =>
    if k'.same k then (k', h) :: rest else (k', h') :: HostValue.putEntry k h rest

/-- The mapping that is given these entries one after the other. -/
def HostValue.mapping (entries : List (HostKey × HostValue)) : HostValue :=
  .map (entries.foldl (fun es (k, h) => putEntry k h es) [])

mutual

/-- What the host gets for a value; objects are copied and functions handed out as they are. -/
def Datum.toHost : Datum → HostValue
  | .undefined | .null => .null
  | .bool b => .bool b
  | .int i => .int i
  | .float f => .float f
  | .string s => .string s
  | .array items => .list (Datum.toHostItems items)
  | .object slots => .map (Datum.toHostSlots slots)
  | .function r _ => .value (.function r)

def Datum.toHostItems : List Datum → List HostValue
  | [] => []
  | d :: ds => d.toHost :: Datum.toHostItems ds

def Datum.toHostSlots : List (Text × Datum) → List (HostKey × HostValue)
  | [] => []
  | e :: es => Datum.toHostSlot e :: Datum.toHostSlots es

def Datum.toHostSlot : Text × Datum → HostKey × HostValue
  | (k, d) => (.string k, d.toHost)

end

/-- Where an operation meets a value that it cannot work on. -/
inductive BadValue
  /-- Splitting a string at the empty one. -/
  | emptySeparator
  /-- The integer below a double that is no number. -/
  | notANumber
  /-- A numeral in a template that spells no number. -/
  | numeral (text : String)
  /-- An integer of more digits than the host writes. -/
  | digits (i : Int)
deriving DecidableEq, Repr

/-- Where a number is out of the range of an operation. -/
inductive Overflow
  /-- How many pieces to split into, or how many occurrences to replace. -/
  | count (n : Int)
  /-- The width of an indentation. -/
  | width (n : Int)
  /-- The integer below an infinite double. -/
  | infinite
  /-- An integer that an operator needs as a double, as its other operand is one. -/
  | operand (op : String) (i : Int)
  /-- An integer to be made a double. -/
  | toDouble (i : Int)
deriving DecidableEq, Repr

/-- What the host does wrong, or is asked for in vain. No template error stands for it. -/
inductive Escape
  /-- A value that an operation cannot work on. -/
  | badValue {site : BadValue}
  /-- A number out of the range of an operation. -/
  | overflow {site : Overflow}
  /-- A call with the wrong arguments. -/
  | badCall
deriving DecidableEq, Repr

end ChatTemplate
