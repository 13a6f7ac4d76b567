import ChatTemplate.Json.Reader
import ChatTemplate.Path
import ChatTemplate.Template

/-!
# The command line

A template is the text of a file, of the standard input or of the argument itself; its variables
come from a JSON file.
-/

namespace ChatTemplate.CommandLine

/-- What the command line has to do with. Nothing is read that the arguments do not ask for. -/
structure World (m : Type → Type) where
  /-- The text of a file, if there is one. -/
  file? : Path → m (Option String)
  stdin : m String

inductive Problem
  | noStdin
  | unreadable (path : String)
  | notAnObject (path : String)
  | missingPath
  | extraArgument (arg : String)
  | pathTooLong (arg : String)
deriving DecidableEq, Repr

def Problem.message : Problem → String
  | .noStdin => "No template provided on stdin"
  | .unreadable path => s!"Cannot read variables from {path}"
  | .notAnObject path => s!"Variables file {path} must hold a JSON object"
  | .missingPath => "--vars flag requires a path"
  | .extraArgument arg => s!"Unexpected argument: {arg}"
  | .pathTooLong arg => s!"File name too long: {arg}"

/-- What the arguments ask for. -/
structure Request where
  layout : Layout
  bindings : List (String × HostValue)
  source : Option String

/-- A text file with all its line ends turned into newlines. -/
def unifyLineEnds : List Char → List Char
  | [] => []
  | '\r' :: '\n' :: cs => '\n' :: unifyLineEnds cs
  | c :: cs => (if c == '\r' then '\n' else c) :: unifyLineEnds cs

section Reading

variable {m : Type → Type} [Monad m]

def World.text? (w : World m) (path : Path) : m (Option String) := do
  return (← w.file? path).map fun s => String.ofList (unifyLineEnds s.toList)

/-- The variables of a file. No template can name one that has a surrogate in its name. -/
def World.bindings (w : World m) (path : String) :
    ExceptT Problem m (List (String × HostValue)) := do
  let some file := Path.ofString? path | throw (.unreadable path)
  match (← w.text? file).bind (Json.read? ·) with
  | none => throw (.unreadable path)
  | some (.map entries) =>
    return entries.filterMap fun
      | (.string k, v) => k.toString?.map (·, v)
      | _ => none
  | some _ => throw (.notAnObject path)

/-- What an argument of the shape `--vars=path` names. -/
def varsPath? (arg : String) : Option String :=
  let flag := "--vars=".toList
  if flag.isPrefixOf arg.toList then some (String.ofList (arg.toList.drop flag.length)) else none

/-- Obeys the arguments from left to right. -/
def parse (w : World m) (r : Request) : List String → ExceptT Problem m Request
  | [] => return r
  | "--vars" :: [] => throw .missingPath
  | "--vars" :: path :: rest => do
    let vars ← w.bindings path
    parse w { r with bindings := vars } rest
  | arg :: rest =>
    if arg == "--no-lstrip-blocks" then
      parse w { r with layout := { r.layout with stripLineStarts := false } } rest
    else if arg == "--no-trim-blocks" then
      parse w { r with layout := { r.layout with trimLineEnds := false } } rest
    else match varsPath? arg with
      | some path => do
        let vars ← w.bindings path
        parse w { r with bindings := vars } rest
      | none =>
        match r.source with
        | none => parse w { r with source := some arg } rest
        | some _ => throw (.extraArgument arg)

/-- The text of the template that an argument stands for. -/
def World.source (w : World m) (arg : Option String) : ExceptT Problem m String := do
  let arg := arg.getD "-"
  if arg == "" || arg == "-" then
    let text ← w.stdin
    if text.isEmpty then throw .noStdin else return text
  else match Path.ofString? arg with
    | none => return arg
    | some path =>
      if path.tooLong then throw (.pathTooLong arg) else return (← w.text? path).getD arg

end Reading

inductive Outcome
  | printed (s : Text)
  | refused (problem : Problem)
  | notCompiled (fault : CompileFault)
  | notRendered (fault : Fault)

/-- Why nothing is printed. -/
def Outcome.complaint : Outcome → Text
  | .printed _ => ""
  | .refused p => p.message
  | .notCompiled f => f.report.line
  | .notRendered f => (f.report?.map ErrorReport.line).getD "The rendering was broken off"

/-- How deep the rendering of the program may nest. -/
def maxDepth : Nat := 100000

/-- Renders a template, nesting at most `depth` deep. -/
def render (depth : Nat) (r : Request) (source : String) : Outcome :=
  match Template.compile r.layout source with
  | .error e => .notCompiled e
  | .ok t =>
    match (t.render Host.none depth r.bindings []).run.run Store.initial with
    | (.ok s, _) => .printed s
    | (.error e, _) => .notRendered e

/-- Answers the arguments. -/
def run {m : Type → Type} [Monad m] (depth : Nat) (w : World m) (argv : List String) :
    m Outcome := do
  let request : ExceptT Problem m (Request × String) := do
    let r ← parse w ⟨⟨true, true⟩, [], none⟩ argv
    return (r, ← w.source r.source)
  match ← request.run with
  | .error p => return .refused p
  | .ok (r, source) => return render depth r source

end ChatTemplate.CommandLine
