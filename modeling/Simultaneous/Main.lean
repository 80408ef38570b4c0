import Simultaneous.CommandLine

/-!
The program: arguments and files in, text and an exit code out.
-/

def readFile? (path : String) : IO (Option String) := do
  try
    return some (← IO.FS.readFile path)
  catch _ =>
    return none

def main (arguments : List String) : IO UInt32 := do
  let color ← (← IO.getStdout).isTty
  let answer ← Simultaneous.CommandLine.answer readFile? (fun _ => .prompt) color arguments
  IO.print answer.output
  IO.eprint answer.complaint
  return answer.exitCode
