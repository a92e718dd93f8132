import Descent.Parser.Sequence

/-!
Repetition. A parser runs again and again until it fails or matches without consuming anything;
the value of such an empty match is dropped, for the run would never end otherwise.
-/

namespace Descent.Parser

variable {α β : Type}

/-- The values of all consuming matches of `parser` in a row, and the input after the last. -/
def advance (parser : Parser α) (input : List Char) : List α × List Char :=
  match parser input with
  | .matched value rest =>
      if rest.length < input.length then
        let following := advance parser rest
        (value :: following.1, following.2)
      else ([], input)
  | .failed _ => ([], input)
termination_by input.length

/-- Zero or more matches. -/
def many (parser : Parser α) : Parser (List α) := fun input =>
  let run := advance parser input
  .matched run.1 run.2

/-- One or more matches. The first one counts even if it is empty. -/
def many1 (parser : Parser α) : Parser (List α) := do
  let first ← parser
  let others ← many parser
  pure (first :: others)

def skipMany (parser : Parser α) : Parser Unit := fun input =>
  .matched () (advance parser input).2

/-- One or more matches of `parser` with `separator` between them. A separator with no match
after it is not consumed. -/
def separated (parser : Parser α) (separator : Parser β) : Parser (List α) := do
  let first ← parser
  let others ← many (precededBy separator parser)
  pure (first :: others)

end Descent.Parser
