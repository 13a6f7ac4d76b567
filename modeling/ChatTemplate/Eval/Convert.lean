import ChatTemplate.Eval.Basic

/-! # Exchanging values with the host -/

namespace ChatTemplate

/-- The name that a key of a mapping becomes; an integer may have any number of digits. -/
def HostKey.name : HostKey → Text
  | .null => "None"
  | .bool b => if b then "True" else "False"
  | .int i => toString i
  | .float f => Double.plainText f
  | .string s => s
  | .other _ text => text

namespace Eval

mutual

/-- Takes a value over from the host. Mappings become objects; of two keys that become the same
name, the first gives the place and the last the value. -/
def ofHost : HostValue → Eval Value
  | .null => return .null
  | .bool b => return .bool b
  | .int i => return .int i
  | .float f => return .float f
  | .string s => return .string s
  | .list items | .tuple items => return .array (← ofHostItems items)
  | .map entries => do newObject (Slots.putAll [] (← ofHostEntries entries))
  | .callable f => newFunction (.host f)
  | .foreign typeName => fail (.notConvertible typeName)
  | .value v => return v

def ofHostItems : List HostValue → Eval (List Value)
  | [] => return []
  | h :: hs => do
    let v ← ofHost h
    return v :: (← ofHostItems hs)

def ofHostEntries : List (HostKey × HostValue) → Eval (List (Text × Value))
  | [] => return []
  | e :: es => do
    let x ← ofHostEntry e
    return x :: (← ofHostEntries es)

def ofHostEntry : HostKey × HostValue → Eval (Text × Value)
  | (k, h) => return (k.name, ← ofHost h)

end

def toHost (v : Value) : Eval HostValue := return (← datum v).toHost

/-- Declares a name in a scope, where it must be new. -/
def declare (s : Scope) (name : String) (h : HostValue) : Eval Value := do
  if (((← get).frame s.inner).vars.lookup name).isSome then fail (.redeclared name)
  let v ← ofHost h
  bind s name v
  return v

end Eval
end ChatTemplate
