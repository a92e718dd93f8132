import Descent.Outcome

/-!
Parsers are functions from the input to an outcome. They form a monad: `bind` runs a parser on
what an earlier one left over, and a failure ends the run at the place where it was noticed.
-/

namespace Descent

def Parser (α : Type) : Type := List Char → Outcome α

namespace Parser

variable {α β : Type}

/-- Matches nothing and yields `value`. -/
protected def pure (value : α) : Parser α := fun input => .matched value input

protected def map (f : α → β) (parser : Parser α) : Parser β := fun input => (parser input).map f

/-- Runs `parser`, and then the parser that `next` selects for its value. -/
protected def bind (parser : Parser α) (next : α → Parser β) : Parser β := fun input =>
  (parser input).andThen fun value rest => next value rest

/-- Applies a parsed function to a parsed argument. -/
protected def apply (function : Parser (α → β)) (argument : Parser α) : Parser β := fun input =>
  (function input).andThen fun f rest => (argument rest).map f

instance : Monad Parser where
  pure := Parser.pure
  map := Parser.map
  bind := Parser.bind
  seq function argument := function.apply (argument ())

@[simp] theorem pure_apply (value : α) (input : List Char) :
    (pure value : Parser α) input = .matched value input := rfl

@[simp] theorem map_apply (f : α → β) (parser : Parser α) (input : List Char) :
    (f <$> parser) input = (parser input).map f := rfl

@[simp] theorem bind_apply (parser : Parser α) (next : α → Parser β) (input : List Char) :
    (parser >>= next) input = (parser input).andThen fun value rest => next value rest := rfl

end Parser

end Descent
