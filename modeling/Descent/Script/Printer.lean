import Descent.Script.Derivation

/-!
The canonical tokens of a script. Operands that are binary or conditional stand in parentheses, and
every statement that needs a semicolon gets one.
-/

namespace Descent.Script

namespace Tree

def isCompound : Tree → Bool
  | leaf _ => false
  | node operator _ => ["+", "-", "*", "/", "if"].contains operator

/-- Whether a tree is a statement without a semicolon after it. -/
def isClosed : Tree → Bool
  | leaf _ => false
  | node operator _ => ["if", "fn"].contains operator

def enclose (tokens : List Token) : List Token := .sign '(' :: tokens ++ [.sign ')']

def operandTokens (operand : Tree × List Token) : List Token :=
  if operand.1.isCompound then enclose operand.2 else operand.2

def statementTokens (statement : Tree × List Token) : List Token :=
  if statement.1.isClosed then statement.2 else statement.2 ++ [.sign ';']

/-- The tokens of an operator and its operands, of which each comes with its own tokens. -/
def layout (operator : String) (operands : List (Tree × List Token)) : List Token :=
  match operator, operands with
  | "call", name :: arguments =>
      name.2 ++ enclose (List.intercalate [.sign ','] (arguments.map Prod.snd))
  | "if", condition :: consequence :: alternative =>
      .word "if" :: enclose condition.2 ++ consequence.2 ++
        alternative.flatMap fun branch => .word "else" :: branch.2
  | "block", statements => .sign '\x7b' :: statements.flatMap statementTokens ++ [.sign '\x7d']
  | "fn", [name, parameters, body] => .word "fn" :: name.2 ++ enclose parameters.2 ++ body.2
  | "params", names => List.intercalate [.sign ','] (names.map Prod.snd)
  | "=", [name, value] => name.2 ++ .sign '=' :: value.2
  | operator, [lhs, rhs] =>
      operandTokens lhs ++ operator.toList.map .sign ++ operandTokens rhs
  | _, _ => []

mutual

def tokens : Tree → List Token
  | leaf (.number value) => [.numeral value]
  | leaf (.name text) => [.word text]
  | node operator operands => layout operator (tokensAll operands)

def tokensAll : List Tree → List (Tree × List Token)
  | [] => []
  | tree :: trees => (tree, tokens tree) :: tokensAll trees

end

end Tree

def programTokens (statements : List Tree) : List Token :=
  (Tree.tokensAll statements).flatMap Tree.statementTokens

end Descent.Script
