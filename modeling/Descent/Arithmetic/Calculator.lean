import Descent.Arithmetic.Grammar
import Descent.Parser.Complete

/-!
The calculator: it parses a text as one expression, with a choice of grouping, and evaluates it.
-/

namespace Descent.Arithmetic

structure Calculator where
  /-- How a chain of operators of one precedence groups. -/
  associativity : Associativity := .right

namespace Calculator

inductive Error where
  /-- The text is no expression. A literal that does not fit a word counts as such. -/
  | malformed (error : SyntaxError)
  | fault (cause : Fault)
deriving DecidableEq

def Error.message : Error → String
  | malformed error => error.message
  | fault cause => cause.message

/-- An expression at the start of the input. -/
def expression (calculator : Calculator) : Parser Expr :=
  Arithmetic.parser calculator.associativity .expr

def parse (calculator : Calculator) (input : List Char) : Except SyntaxError Expr :=
  calculator.expression.complete input

def evaluate (calculator : Calculator) (input : List Char) : Except Error Int :=
  match calculator.parse input with
  | .error error => .error (.malformed error)
  | .ok expr =>
      match expr.evaluate with
      | .error cause => .error (.fault cause)
      | .ok value => .ok value

end Calculator

end Descent.Arithmetic
