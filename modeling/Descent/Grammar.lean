import Descent.Parser.Choice

/-!
Grammars whose rules refer to each other. The productions give each rule in terms of parsers for
all rules. The rules are the limit of a chain of approximations: the first one refuses everything,
and each later one runs the productions over the one before. A grammar that consumes input before
it comes back to a rule needs only as many approximations as the input is long, times the number
of rules that can be entered without consuming anything.
-/

namespace Descent

structure Grammar (ι α : Type) where
  /-- How many rules can be entered inside each other at one place of the input. -/
  height : Nat
  productions : (ι → Parser α) → ι → Parser α

namespace Grammar

variable {ι α : Type}

def approximate (grammar : Grammar ι α) : Nat → ι → Parser α
  | 0, _ => Parser.fail
  | depth + 1, rule => grammar.productions (grammar.approximate depth) rule

/-- The parser for a rule: on every input, the approximation that is deep enough for it. -/
def parser (grammar : Grammar ι α) (rule : ι) : Parser α := fun input =>
  grammar.approximate (grammar.height * (input.length + 1)) rule input

end Grammar

end Descent
