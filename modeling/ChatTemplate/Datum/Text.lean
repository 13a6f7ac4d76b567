import ChatTemplate.Datum
import ChatTemplate.Number.Shortest
import ChatTemplate.Text.Quoted

/-! # The texts of values -/

namespace ChatTemplate.Datum

def quotedText (s : Text) : Text := .ofList (Text.quoted s.toList)

def commaList (items : List Text) : Text := Text.intercalate ", " items

mutual

/-- A value as it is written inside others; integers may have any number of digits. -/
def literal : Datum → Text
  | .undefined => ""
  | .null => "None"
  | .bool b => if b then "True" else "False"
  | .int i => toString i
  | .float f => Double.plainText f
  | .string s => quotedText s
  | .array items => "[" ++ commaList (literalItems items) ++ "]"
  | .object slots => "\x7b" ++ commaList (literalSlots slots) ++ "\x7d"
  | .function _ name => "<function " ++ name ++ ">"

def literalItems : List Datum → List Text
  | [] => []
  | d :: ds => literal d :: literalItems ds

def literalSlots : List (Text × Datum) → List Text
  | [] => []
  | e :: es => literalSlot e :: literalSlots es

def literalSlot : Text × Datum → Text
  | (k, d) => quotedText k ++ ": " ++ literal d

end

/-- A value as a template prints it. -/
def text : Datum → Text
  | .string s => s
  | d => d.literal

mutual

/-- A value with the kinds of its numbers and strings. -/
def debug : Datum → Text
  | .undefined => "undefined"
  | .null => "null"
  | .bool b => if b then "true" else "false"
  | .int i => ValueKind.int.label ++ "(" ++ toString i ++ ")"
  | .float f => ValueKind.float.label ++ "(" ++ Double.plainText f ++ ")"
  | .string s => ValueKind.string.label ++ "(" ++ quotedText s ++ ")"
  | .array items => "[" ++ commaList (debugItems items) ++ "]"
  | .object slots => "\x7b" ++ commaList (debugSlots slots) ++ "\x7d"
  | .function _ name => "<function " ++ name ++ ">"

def debugItems : List Datum → List Text
  | [] => []
  | d :: ds => debug d :: debugItems ds

def debugSlots : List (Text × Datum) → List Text
  | [] => []
  | e :: es => debugSlot e :: debugSlots es

def debugSlot : Text × Datum → Text
  | (k, d) => quotedText k ++ ": " ++ debug d

end

end ChatTemplate.Datum
