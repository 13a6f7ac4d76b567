import ChatTemplate.Eval.Basic
import ChatTemplate.Text.Split

/-! # Operators -/

namespace ChatTemplate

namespace Eval

/-- The result of an operator, unless an integer is too large for it. -/
def inRange (op : String) : Except Int Number → Eval Value
  | .ok n => return .ofNumber n
  | .error i => overflow (.operand op i)

/-- An operator between two numbers. -/
def numeric (op : String) (a b : Number) : Eval Value :=
  match op with
  | "+" => inRange op (a.add b)
  | "-" => inRange op (a.sub b)
  | "*" => inRange op (a.mul b)
  | "/" =>
    if b.isZero then fail .divisionByZero
    else match a.div? b with
      | some q => return .ofNumber q
      | none => do fail (.infiniteQuotient (← numberText a) (← numberText b))
  | "%" => if b.isZero then fail .moduloByZero else inRange op (a.mod b)
  | "<" => return .bool (a.compare? b == some .lt)
  | ">" => return .bool (a.compare? b == some .gt)
  | "<=" => return .bool (a.compare? b matches some .lt | some .eq)
  | ">=" => return .bool (a.compare? b matches some .gt | some .eq)
  | op => fail (.unknownOperator op)

/-- Whether something was found, as an answer to `in` or `not in`. -/
def membership (op : String) (found : Bool) : Value := .bool (found == (op == "in"))

/-- Arrays are appended; a string and any other value are joined as texts. -/
def sum (left right : Value) : Eval Value := do
  match left, right with
  | .array a, .array b => return .array (a ++ b)
  | .string a, w => return .string (a ++ (← textOf w))
  | v, .string b => return .string ((← textOf v) ++ b)
  | _, _ => fail (.unknownOperator "+")

/-- Does `right` hold `left`? -/
def contained (op : String) (left right : Value) : Eval Bool := do
  match left, right with
  | v, .array items => finite (·.holds? items v)
  | .string a, .string b => return Text.occursIn a.toList b.toList
  | .string a, .object r => return ((← slotsOf r).lookup a).isSome
  | _, _ => fail (.unknownOperator op)

/-- An operator between two values of which neither is undefined or null. -/
def present (op : String) (left right : Value) : Eval Value := do
  if op == "~" then return .string ((← textOf left) ++ (← textOf right))
  else match left.number?, right.number? with
    | some a, some b => numeric op a b
    | _, _ =>
      if op == "+" then sum left right
      else if op == "in" || op == "not in" then return membership op (← contained op left right)
      else fail (.unknownOperator op)

/-- An operator that needs both of its operands. -/
def binary (op : String) (left right : Value) : Eval Value := do
  if op == "==" then return .bool (← equal left right)
  else if op == "!=" then return .bool !(← equal left right)
  else match left, right with
    | _, .undefined =>
      if op == "in" || op == "not in" then return membership op false
      else fail (.undefinedOperand op)
    | .undefined, _ => fail (.undefinedOperand op)
    | .null, _ | _, .null => fail (.nullOperand op)
    | left, right => present op left right

end Eval
end ChatTemplate
