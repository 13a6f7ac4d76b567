import ChatTemplate.CommandLine

/-!
# The program

It prints what the template renders to. When there is nothing that can be printed, it says why on
the standard error and ends with code 1.
-/

open ChatTemplate CommandLine

/-- What the running program has to do with. -/
def ambient : World IO where
  file? path := do
    try return some (← IO.FS.readFile path.text) catch _ => return none
  stdin := do (← IO.getStdin).readToEnd

def main (argv : List String) : IO UInt32 := do
  match ← run maxDepth ambient argv with
  | .printed t =>
    match t.toString? with
    | some s =>
      IO.print s
      return 0
    | none =>
      IO.eprintln "The rendering holds a surrogate"
      return 1
  | outcome =>
    IO.eprintln outcome.complaint.display
    return 1
