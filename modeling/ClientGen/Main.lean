/-
  ClientGen.Main

  The program: files are those of the machine, and the lines of an ending go to
  the standard output.
-/
import ClientGen.Program.CommandLine

namespace ClientGen

/-- Whether an action succeeds. -/
def succeeds (action : IO Unit) : IO Bool := do
  try
    action
    return true
  catch _ => return false

/-- Access to the files of the machine. -/
def machineFiles : FileAccess IO where
  read? path := do
    try
      return some (← IO.FS.readFile path)
    catch _ => return none
  isPresent path := succeeds do
    let _ ← IO.FS.realPath path
  createDirectories path := do
    if path.isEmpty then return true
    succeeds (IO.FS.createDirAll path)
  write path text := succeeds (IO.FS.writeFile path text)

/-- Writes the report of a failure. -/
def reportError (e : GenerationError) : IO Unit := do
  IO.eprintln "\n  ◆ Hold up.\n"
  IO.eprintln (e.code ++ "\n\n  " ++ e.message)
  match e.help? with
  | some help => IO.eprintln ("  help: " ++ help)
  | none => pure ()

/-- Writes an ending that came so many milliseconds after the start. -/
def report (ending : Ending) (milliseconds : Nat) : IO Unit := do
  ending.lines.forM IO.println
  if ending.timed then IO.println (doneLine (toString milliseconds))
  match ending.error with
  | some e => reportError e
  | none => if ending.exitCode = usageExitCode then helpLines.forM IO.eprintln

end ClientGen

/-- Runs the program. -/
def main (arguments : List String) : IO UInt32 := do
  let start ← IO.monoMsNow
  let ending ← ClientGen.runProgram ClientGen.machineFiles arguments
  ClientGen.report ending ((← IO.monoMsNow) - start)
  return ending.exitCode.toUInt32
