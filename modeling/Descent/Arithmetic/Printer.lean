import Descent.Arithmetic.Derivation

/-!
Expressions printed with as few parentheses as the grouping allows. An operand stands in
parentheses if it binds less tightly than its operator, or just as tightly on the side that the
associativity does not group to.
-/

namespace Descent.Arithmetic

namespace Expr

def isLoose : Expr → Bool
  | number _ => false
  | binary operator _ _ => operator.isAdditive

def isTight : Expr → Bool
  | number _ => false
  | binary operator _ _ => !operator.isAdditive

/-- Whether `operand` needs parentheses under `operator`; `favoured` tells that it stands on the
side to which chains group. -/
def needsParentheses (operator : Operator) (favoured : Bool) (operand : Expr) : Bool :=
  if operator.isAdditive then operand.isLoose && !favoured
  else operand.isLoose || operand.isTight && !favoured

def enclose (enclosed : Bool) (tokens : List Token) : List Token :=
  if enclosed then .sign '(' :: tokens ++ [.sign ')'] else tokens

def tokens (associativity : Associativity) : Expr → List Token
  | number value => [.numeral value.toNat]
  | binary operator lhs rhs =>
      enclose (needsParentheses operator (associativity = .left) lhs) (tokens associativity lhs) ++
        .sign operator.symbol ::
          enclose (needsParentheses operator (associativity = .right) rhs)
            (tokens associativity rhs)

/-- The numbers of an expression, from left to right. -/
def literals : Expr → List Int
  | number value => [value]
  | binary _ lhs rhs => lhs.literals ++ rhs.literals

end Expr

end Descent.Arithmetic
