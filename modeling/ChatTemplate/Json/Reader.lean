import ChatTemplate.HostValue
import ChatTemplate.Number.Reading

/-!
# Reading JSON

Beside what JSON allows, `NaN`, `Infinity` and `-Infinity` are numbers. The escapes of two
surrogates that belong together spell one character; a surrogate without its partner stands for
itself.
-/

namespace ChatTemplate.Json

/-- Takes something off the front of a text. -/
abbrev Reader (α : Type) := StateT (List Codepoint) Option α

def isSpace (c : Codepoint) : Bool := c == ' ' || c == '\t' || c == '\n' || c == '\r'

def skipSpaces : Reader Unit := fun cs => some ((), cs.dropWhile isSpace)

/-- Takes a word if it stands at the front. -/
def word? (w cs : List Codepoint) : Option (List Codepoint) :=
  if w.isPrefixOf cs then some (cs.drop w.length) else none

/-- Takes a code point if it is `c`. -/
def accept (c : Codepoint) : Reader Bool := fun cs =>
  match cs with
  | d :: rest => if d == c then some (true, rest) else some (false, cs)
  | [] => some (false, cs)

def expect (c : Codepoint) : Reader Unit := do
  if ← accept c then return () else failure

/-! ### Strings -/

def hexValue? (c : Codepoint) : Option Nat :=
  let n := c.toNat
  if 0x30 ≤ n && n ≤ 0x39 then some (n - 48)
  else if 0x61 ≤ n && n ≤ 0x66 then some (n - 87)
  else if 0x41 ≤ n && n ≤ 0x46 then some (n - 55)
  else none

/-- The number that the first four code points spell in hexadecimal. -/
def hexUnit? : List Codepoint → Option Nat
  | a :: b :: c :: d :: _ => do
    let a ← hexValue? a
    let b ← hexValue? b
    let c ← hexValue? c
    let d ← hexValue? d
    return 4096 * a + 256 * b + 16 * c + d
  | _ => none

/-- What each letter after a backslash stands for. -/
def escapes : List (Codepoint × Codepoint) := [
  ('"', '"'), ('\\', '\\'), ('/', '/'), ('b', '\x08'), ('f', '\x0C'), ('n', '\n'), ('r', '\r'),
  ('t', '\t')]

/-- The second half of a character that two escapes spell, where it follows the first one. -/
def lowHalf? (cs : List Codepoint) : Option Nat := do
  let v ← hexUnit? (← word? ['\\', 'u'] cs)
  if 0xDC00 ≤ v && v < 0xE000 then some v else none

/-- What the text after `\u` stands for, and the number of code points that spell it: two units may
be the halves of one character. -/
def unicode? (cs : List Codepoint) : Option (Codepoint × Nat) := do
  let u ← hexUnit? cs
  match if 0xD800 ≤ u && u < 0xDC00 then lowHalf? (cs.drop 4) else none with
  | some v => return (.ofNat (0x10000 + 1024 * (u - 0xD800) + (v - 0xDC00)), 10)
  | none => return (.ofNat u, 4)

/-- A string after its opening quote; `skip` code points belong to the last escape. -/
def stringBody : Nat → List Codepoint → Option (List Codepoint × List Codepoint)
  | _, [] => none
  | skip + 1, _ :: cs => stringBody skip cs
  | 0, c :: cs =>
    if c == '"' then some ([], cs)
    else if c == '\\' then
      match cs with
      | [] => none
      | e :: rest =>
        if e == 'u' then do
          let (x, n) ← unicode? rest
          let (body, rest) ← stringBody n rest
          return (x :: body, rest)
        else do
          let x ← escapes.lookup e
          let (body, rest) ← stringBody 0 rest
          return (x :: body, rest)
    else if c.toNat < 0x20 then none
    else (stringBody 0 cs).map fun (body, rest) => (c :: body, rest)

/-! ### Numbers -/

/-- The digits of an integer without a sign; none but zero itself begins with a zero. -/
def takeInt (cs : List Codepoint) : List Codepoint × List Codepoint :=
  match word? ['0'] cs with
  | some rest => (['0'], rest)
  | none => cs.span Text.isDigit

/-- The fraction at the front, with its point, if there is one. -/
def takeFraction (cs : List Codepoint) : List Codepoint × List Codepoint :=
  match word? ['.'] cs with
  | some rest =>
    let (ds, rest) := rest.span Text.isDigit
    if ds.isEmpty then ([], cs) else ('.' :: ds, rest)
  | none => ([], cs)

/-- The sign of an exponent. -/
def takeSign (cs : List Codepoint) : List Codepoint × List Codepoint :=
  match cs with
  | c :: rest => if c == '-' || c == '+' then ([c], rest) else ([], cs)
  | [] => ([], [])

/-- The exponent at the front, with its mark, if there is one. -/
def takeExponent (cs : List Codepoint) : List Codepoint × List Codepoint :=
  match cs with
  | e :: rest =>
    if e == 'e' || e == 'E' then
      let (sign, rest) := takeSign rest
      let (ds, rest) := rest.span Text.isDigit
      if ds.isEmpty then ([], cs) else (e :: sign ++ ds, rest)
    else ([], cs)
  | [] => ([], cs)

/-- A number: an integer unless it has a fraction or an exponent. -/
def number (cs : List Codepoint) : Option (HostValue × List Codepoint) :=
  let (sign, rest) : List Codepoint × List Codepoint :=
    match word? ['-'] cs with
    | some rest => (['-'], rest)
    | none => ([], cs)
  let (whole, rest) := takeInt rest
  let (fraction, rest) := takeFraction rest
  let (exponent, rest) := takeExponent rest
  if whole.isEmpty then none
  else if fraction.isEmpty && exponent.isEmpty then
    (Number.readInt? (sign ++ whole)).map fun i => (.int i, rest)
  else
    (Number.readFloat? (sign ++ whole ++ fraction ++ exponent)).map fun f => (.float f, rest)

/-! ### Values -/

def constants : List (Text × HostValue) := [
  ("null", .null), ("true", .bool true), ("false", .bool false), ("NaN", .float (0.0 / 0.0)),
  ("Infinity", .float (Double.infinity false)), ("-Infinity", .float (Double.infinity true))]

/-- A constant or a number. -/
def scalar : Reader HostValue := fun cs =>
  match constants.findSome? fun (w, v) => (word? w.toList cs).map fun rest => (v, rest) with
  | some r => some r
  | none => number cs

/-- What follows an item: a comma and `more`, or the end. -/
def list {α : Type} (close : Codepoint) (item : Reader α) : Nat → Reader (List α)
  | 0 => failure
  | n + 1 => do
    let x ← item
    skipSpaces
    if ← accept close then return [x]
    expect ','
    skipSpaces
    return x :: (← list close item n)

/-- Items between brackets, after the opening one. -/
def group {α : Type} (close : Codepoint) (item : Reader α) : Reader (List α) := do
  skipSpaces
  if ← accept close then return []
  let cs ← get
  list close item cs.length

def string : Reader Text := do
  expect '"'
  let s ← (stringBody 0 : Reader (List Codepoint))
  return .ofList s

/-- A name with its value. -/
def entry (value : Reader HostValue) : Reader (Text × HostValue) := do
  let name ← string
  skipSpaces
  expect ':'
  skipSpaces
  return (name, ← value)

/-- An object in which a name that is given again keeps its place and takes its last value. -/
def object (entries : List (Text × HostValue)) : HostValue :=
  .map ((Slots.putAll [] entries).map fun (k, v) => (.string k, v))

/-- Reads a value that nests at most `n` deep. -/
def valueWithin : Nat → Reader HostValue
  | 0 => failure
  | n + 1 => do
    if (← get).head? == some (.ofChar '"') then return .string (← string)
    else if ← accept '[' then return .list (← group ']' (valueWithin n))
    else if ← accept '\x7b' then return object (← group '\x7d' (entry (valueWithin n)))
    else scalar

/-- The value of a text that is JSON from end to end. -/
def read? (t : Text) : Option HostValue := do
  let cs := t.toList
  let (v, rest) ← valueWithin cs.length (cs.dropWhile isSpace)
  if (rest.dropWhile isSpace).isEmpty then some v else none

end ChatTemplate.Json
