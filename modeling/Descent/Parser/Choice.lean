import Descent.Parser.Basic

/-!
Choice between parsers. Each candidate runs on the same input, the first match wins, and when
none matches the failure is that of the last candidate.
-/

namespace Descent.Parser

variable {α : Type}

/-- Fails at once. -/
def fail : Parser α := fun input => .failed input

instance : Inhabited (Parser α) := ⟨fail⟩

protected def orElse (first : Parser α) (second : Unit → Parser α) : Parser α := fun input =>
  (first input).orElse fun _ => second () input

instance : OrElse (Parser α) where
  orElse := Parser.orElse

/-- The first match among `parsers`. -/
def choice (parsers : List (Parser α)) : Parser α := fun input =>
  parsers.foldl (fun outcome parser => outcome.orElse fun _ => parser input) (.failed input)

/-- Yields `none`, and consumes nothing, when `parser` fails. -/
def optional (parser : Parser α) : Parser (Option α) := fun input =>
  match parser input with
  | .matched value rest => .matched (some value) rest
  | .failed _ => .matched none input

@[simp] theorem or_else_apply (first second : Parser α) (input : List Char) :
    (first <|> second) input = (first input).orElse fun _ => second input := rfl

end Descent.Parser
