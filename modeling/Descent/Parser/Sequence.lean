import Descent.Parser.Basic

/-!
Parsers run one after the other, each on what the previous one left. The run ends with the first
failure, at the place where that parser noticed it.
-/

namespace Descent.Parser

variable {α β γ : Type}

/-- Rows of parsers that can run in order: a parser, a tuple of parsers, or a list of parsers of
one type. The values are collected in the same form. -/
class Row (ρ : Type) (τ : outParam Type) where
  run : ρ → Parser τ

/-- Runs a row of parsers in order and collects all values. -/
protected def sequence {ρ τ : Type} [Row ρ τ] (parsers : ρ) : Parser τ := Row.run parsers

instance : Row (Parser α) α where
  run parser := parser

instance {ρ τ : Type} [Row ρ τ] : Row (Parser α × ρ) (α × τ) where
  run parsers := do
    let first ← parsers.1
    let others ← Parser.sequence parsers.2
    pure (first, others)

def runList : List (Parser α) → Parser (List α)
  | [] => pure []
  | parser :: parsers => do
      let first ← parser
      let others ← runList parsers
      pure (first :: others)

instance : Row (List (Parser α)) (List α) where
  run := runList

/-- Runs `opening` and then `parser`, and keeps the value of `parser`. -/
def precededBy (opening : Parser β) (parser : Parser α) : Parser α := do
  let _ ← opening
  parser

/-- Runs `parser` and then `closing`, and keeps the value of `parser`. -/
def terminatedBy (parser : Parser α) (closing : Parser β) : Parser α := do
  let value ← parser
  let _ ← closing
  pure value

def between (opening : Parser β) (closing : Parser γ) (parser : Parser α) : Parser α :=
  precededBy opening (terminatedBy parser closing)

/-- Replaces the value of `parser` by the text that it consumed. -/
def recognize (parser : Parser α) : Parser String := fun input =>
  (parser input).andThen fun _ rest =>
    .matched (String.ofList (input.take (input.length - rest.length))) rest

/-- Fails where `parser` started when its value does not pass `test`. -/
def verify (parser : Parser α) (test : α → Bool) : Parser α := fun input =>
  match parser input with
  | .matched value rest => if test value then .matched value rest else .failed input
  | .failed rest => .failed rest

end Descent.Parser
