import Descent.Arithmetic.Session
import Descent.Script.Program

/-!
The command line. `calc` evaluates the lines of the standard input, grouping to the left when
`--left` is given; `tree` shows the outline of a script on the standard input.
-/

namespace Descent

def write (transcript : Transcript) : IO Unit := do
  (← IO.getStdout).putStr transcript.outputText
  (← IO.getStderr).putStr transcript.complaintText

def readAll : IO (List Char) := do
  return (← (← IO.getStdin).readToEnd).toList

end Descent

open Descent in
def main (arguments : List String) : IO UInt32 := do
  match arguments with
  | "calc" :: options =>
      let associativity := if options.contains "--left" then .left else .right
      write (Arithmetic.Session.run ⟨associativity⟩ (← readAll))
      return 0
  | ["tree"] =>
      write (Script.display (← readAll))
      return 0
  | _ =>
      (← IO.getStderr).putStrLn "usage: calc [--left] | tree"
      return 2
