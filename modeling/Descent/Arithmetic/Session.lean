import Descent.Arithmetic.Calculator
import Descent.Transcript

/-!
A calculator session: every line of a text that is not blank is evaluated on its own. Values go to
the output. Faults and syntax errors go to the error output, a syntax error together with the line
and a caret below the place that it tells.
-/

namespace Descent.Arithmetic.Session

def spaces (count : Nat) : String := String.ofList (List.replicate count ' ')

/-- The caret counts bytes, so characters of more than one byte move it to the right. -/
def report (line : List Char) (error : Calculator.Error) : List String :=
  match error with
  | .malformed error =>
      ["error: " ++ error.message, "  " ++ String.ofList line,
        "  " ++ spaces error.offset ++ "^"]
  | .fault cause => ["error: " ++ cause.message]

def answer (calculator : Calculator) (line : List Char) : Transcript :=
  if line.all Text.isBlank then .empty
  else
    match calculator.evaluate line with
    | .ok value => ⟨[toString value], []⟩
    | .error error => ⟨[], report line error⟩

def run (calculator : Calculator) (input : List Char) : Transcript :=
  .concat ((Text.lines input).map (answer calculator))

end Descent.Arithmetic.Session
