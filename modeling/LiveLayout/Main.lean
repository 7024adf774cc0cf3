import LiveLayout.Command.Run
/-!
The command line: reads the files that are named, prints the tree, and reports what went wrong.
-/

def programName : String := "live-layout"

/-- The text of a file, if it can be read. -/
def readText (file : String) : IO (String × Option String) := do
  try
    return (file, some (← IO.FS.readFile file))
  catch _ => return (file, none)

def main (args : List String) : IO UInt32 := do
  let contents ← (LiveLayout.Command.filesOf args).mapM readText
  let result := LiveLayout.Command.run programName
    (fun file => (LiveLayout.Fields.get? contents file).join) args
  IO.print result.output
  match result.error with
  | some message => IO.eprintln ("Error: " ++ message)
  | none => if result.code = 2 then IO.eprintln (LiveLayout.Command.Help.usage programName)
  return UInt32.ofNat result.code
