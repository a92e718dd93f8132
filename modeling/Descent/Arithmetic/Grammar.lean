import Descent.Arithmetic.Expr
import Descent.Grammar
import Descent.Parser.Numeral

/-!
The grammar of arithmetic expressions:

    factor := '(' expr ')' | digits
    term   := factor (('*' | '/') factor)*
    expr   := term (('+' | '-') term)*

ASCII spaces may stand between all tokens. A chain of operators of one precedence groups to the
right, by recursion on its tail, or to the left, by a fold over a repetition. The two forms leave
different spaces behind: one that groups to the right skips the spaces after its last operand
only when there is an operator, one that groups to the left always does.
-/

namespace Descent.Arithmetic

open Descent.Parser

inductive Associativity where
  | right
  | left
deriving DecidableEq

inductive Rule where
  | factor
  | term
  | expr
deriving DecidableEq

def operatorParser (operator : Operator) : Parser Operator :=
  (fun _ => operator) <$> character operator.symbol

def additive : Parser Operator := operatorParser .add <|> operatorParser .subtract

def multiplicative : Parser Operator := operatorParser .multiply <|> operatorParser .divide

/-- A literal. Its value fits a signed word of 64 bits. -/
def number : Parser Expr := (fun value => .number (value : Int)) <$> nat (.signed 64)

def factorOf (expr : Parser Expr) : Parser Expr :=
  between (token (character '(')) (token (character ')')) expr <|> number

/-- An operand, and possibly an operator with the rest of the chain as its right operand. -/
def rightChain (operand : Parser Expr) (operator : Parser Operator) (tail : Parser Expr) :
    Parser Expr := do
  let _ ← skipSpace
  let lhs ← operand
  let continuation ← optional (terminatedBy (Parser.sequence (token operator, tail)) skipSpace)
  match continuation with
  | some (operator, rhs) => pure (.binary operator lhs rhs)
  | none => pure lhs

/-- The tree of a chain that groups to the left. -/
def foldLeft (first : Expr) (others : List (Operator × Expr)) : Expr :=
  others.foldl (fun lhs (operator, rhs) => .binary operator lhs rhs) first

/-- An operand, and as many operators with a right operand each as there are. -/
def leftChain (operand : Parser Expr) (operator : Parser Operator) : Parser Expr := do
  let _ ← skipSpace
  let first ← operand
  let others ← many (Parser.sequence (token operator, operand))
  let _ ← skipSpace
  pure (foldLeft first others)

def productions : Associativity → (Rule → Parser Expr) → Rule → Parser Expr
  | _, rule, .factor => factorOf (rule .expr)
  | .right, rule, .term => rightChain (rule .factor) multiplicative (rule .term)
  | .right, rule, .expr => rightChain (rule .term) additive (rule .expr)
  | .left, rule, .term => leftChain (rule .factor) multiplicative
  | .left, rule, .expr => leftChain (rule .term) additive

/-- A rule enters itself again only after an opening parenthesis or an operator, so that at most
the three rules are nested at one place. -/
def grammar (associativity : Associativity) : Grammar Rule Expr where
  height := 3
  productions := productions associativity

def parser (associativity : Associativity) : Rule → Parser Expr := (grammar associativity).parser

end Descent.Arithmetic
