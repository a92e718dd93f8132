/-!
Integer arithmetic expressions and their values. Evaluation is exact as long as every result fits
a signed word of 64 bits, and otherwise reports the first fault, left operands before right ones.
-/

namespace Descent.Arithmetic

inductive Operator where
  | add
  | subtract
  | multiply
  | divide
deriving DecidableEq

inductive Expr where
  | number (value : Int)
  | binary (operator : Operator) (lhs rhs : Expr)
deriving DecidableEq, Inhabited

/-- Why an expression has no value. -/
inductive Fault where
  | divisionByZero
  | overflow
deriving DecidableEq

def Fault.message : Fault → String
  | divisionByZero => "division by zero"
  | overflow => "arithmetic overflow"

/-- The integers that a signed word of 64 bits holds. -/
def FitsWord (value : Int) : Prop :=
  -0x8000000000000000 ≤ value ∧ value < 0x8000000000000000

instance (value : Int) : Decidable (FitsWord value) :=
  inferInstanceAs (Decidable (_ ∧ _))

namespace Operator

def symbol : Operator → Char
  | add => '+'
  | subtract => '-'
  | multiply => '*'
  | divide => '/'

def ofChar? : Char → Option Operator
  | '+' => some add
  | '-' => some subtract
  | '*' => some multiply
  | '/' => some divide
  | _ => none

/-- A result as a word. -/
def checked (result : Int) : Except Fault Int :=
  if FitsWord result then .ok result else .error .overflow

/-- Applies the operator to two words. A quotient is rounded toward zero, and only the one of the
least word by `-1` does not fit. -/
def apply : Operator → Int → Int → Except Fault Int
  | add, lhs, rhs => checked (lhs + rhs)
  | subtract, lhs, rhs => checked (lhs - rhs)
  | multiply, lhs, rhs => checked (lhs * rhs)
  | divide, lhs, rhs => if rhs = 0 then .error .divisionByZero else checked (lhs.tdiv rhs)

theorem of_char_symbol (operator : Operator) : ofChar? operator.symbol = some operator := by
  cases operator <;> rfl

end Operator

def Expr.evaluate : Expr → Except Fault Int
  | number value => .ok value
  | binary operator lhs rhs => do
      let left ← lhs.evaluate
      let right ← rhs.evaluate
      operator.apply left right

end Descent.Arithmetic
