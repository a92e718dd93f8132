import Descent.Arithmetic.Expr

/-!
Evaluation against the integers. Every node of an expression has an exact value, with no limit on its
size, and a node is at fault if it divides by zero or if its exact value does not fit a word. Main
statement: an expression without a faulty node evaluates to its exact value, and any other one to the
fault of its first faulty node, operands before their operator and left ones before right ones.
-/

namespace Descent.Arithmetic

namespace Operator

/-- The result without any limit on its size; a quotient is rounded toward zero. -/
def exact : Operator → Int → Int → Int
  | add, lhs, rhs => lhs + rhs
  | subtract, lhs, rhs => lhs - rhs
  | multiply, lhs, rhs => lhs * rhs
  | divide, lhs, rhs => lhs.tdiv rhs

/-- All operators are exact as far as they go: they fail on a zero divisor or for lack of room. -/
theorem apply_eq (operator : Operator) (lhs rhs : Int) :
    operator.apply lhs rhs =
      if operator = .divide ∧ rhs = 0 then .error .divisionByZero
      else if FitsWord (operator.exact lhs rhs) then .ok (operator.exact lhs rhs)
      else .error .overflow := by
  cases operator with
  | add => rfl
  | subtract => rfl
  | multiply => rfl
  | divide =>
      by_cases zero : rhs = 0
      · rw [apply, if_pos zero, if_pos ⟨rfl, zero⟩]
      · have nonzero : ¬(divide = divide ∧ rhs = 0) := fun given => zero given.2
        rw [apply, if_neg zero, if_neg nonzero, checked, exact]

end Operator

namespace Expr

/-- The value over all integers. A division by zero counts as zero here, which is of no account: the
node that divides is at fault before any node above it is looked at. -/
def exact : Expr → Int
  | number value => value
  | binary operator lhs rhs => operator.exact lhs.exact rhs.exact

/-- The nodes of an expression, each after its operands. -/
def postorder : Expr → List Expr
  | number value => [number value]
  | binary operator lhs rhs => lhs.postorder ++ rhs.postorder ++ [binary operator lhs rhs]

/-- What is wrong with the topmost operator of an expression, on the exact values of its operands. -/
def fault? : Expr → Option Fault
  | number _ => none
  | binary operator lhs rhs =>
      if operator = .divide ∧ rhs.exact = 0 then some .divisionByZero
      else if FitsWord (operator.exact lhs.exact rhs.exact) then none
      else some .overflow

def firstFault? (expr : Expr) : Option Fault := expr.postorder.findSome? fault?

variable {expr lhs rhs : Expr} {operator : Operator} {cause : Fault}

theorem fault_binary (operator : Operator) (lhs rhs : Expr) :
    (binary operator lhs rhs).fault? =
      if operator = .divide ∧ rhs.exact = 0 then some .divisionByZero
      else if FitsWord (operator.exact lhs.exact rhs.exact) then none
      else some .overflow := rfl

theorem first_fault_binary (operator : Operator) (lhs rhs : Expr) :
    (binary operator lhs rhs).firstFault? =
      (lhs.firstFault?.or rhs.firstFault?).or (binary operator lhs rhs).fault? := by
  unfold firstFault?
  rw [postorder, List.findSome?_append, List.findSome?_append, List.findSome?_singleton]

/-- An operator is applied to exact values without a loss, or with the fault of its node. -/
theorem apply_exact (operator : Operator) (lhs rhs : Expr) :
    operator.apply lhs.exact rhs.exact =
      (binary operator lhs rhs).fault?.elim (.ok (binary operator lhs rhs).exact) .error := by
  rw [fault_binary, Operator.apply_eq]
  split
  · rfl
  · split
    · rfl
    · rfl

theorem evaluate_eq (expr : Expr) :
    expr.evaluate = expr.firstFault?.elim (.ok expr.exact) .error := by
  induction expr with
  | number value => rfl
  | binary operator lhs rhs ih ihRight =>
      rw [evaluate, ih, ihRight, first_fault_binary]
      -- the operands are evaluated in the order in which their faults are looked for
      cases lhs.firstFault? with
      | some cause => rfl
      | none =>
          cases rhs.firstFault? with
          | some cause => rfl
          | none => exact apply_exact operator lhs rhs

theorem evaluate_ok {value : Int} :
    expr.evaluate = .ok value ↔ expr.firstFault? = none ∧ value = expr.exact := by
  rw [evaluate_eq]
  cases expr.firstFault? with
  | none => simp [eq_comm]
  | some cause => simp

theorem evaluate_error : expr.evaluate = .error cause ↔ expr.firstFault? = some cause := by
  rw [evaluate_eq]
  cases expr.firstFault? with
  | none => simp
  | some found => simp

theorem fault_eq_none :
    (binary operator lhs rhs).fault? = none ↔
      (operator = .divide → rhs.exact ≠ 0) ∧ FitsWord (operator.exact lhs.exact rhs.exact) := by
  rw [fault_binary]
  by_cases divides : operator = .divide ∧ rhs.exact = 0
  · simp [divides]
  · have nonzero : operator = .divide → rhs.exact ≠ 0 := by
      intro same zero
      exact divides ⟨same, zero⟩
    rw [if_neg divides, and_iff_right nonzero]
    split
    · next fits => exact iff_of_true rfl fits
    · next outside => exact iff_of_false (by simp) outside

theorem first_fault_eq_none :
    expr.firstFault? = none ↔
      ∀ operator lhs rhs, binary operator lhs rhs ∈ expr.postorder →
        (operator = .divide → rhs.exact ≠ 0) ∧
          FitsWord (operator.exact lhs.exact rhs.exact) := by
  unfold firstFault?
  rw [List.findSome?_eq_none_iff]
  constructor
  · intro sound operator lhs rhs member
    exact fault_eq_none.mp (sound _ member)
  · intro sound node member
    cases node with
    | number value => rfl
    | binary operator lhs rhs => exact fault_eq_none.mpr (sound operator lhs rhs member)

theorem evaluates_exactly_or_to_first_fault (expr : Expr) :
    (∀ value, expr.evaluate = .ok value ↔
      (∀ operator lhs rhs, binary operator lhs rhs ∈ expr.postorder →
        (operator = .divide → rhs.exact ≠ 0) ∧
          FitsWord (operator.exact lhs.exact rhs.exact)) ∧
      value = expr.exact) ∧
    ∀ cause, expr.evaluate = .error cause ↔
      ∃ before node after, expr.postorder = before ++ node :: after ∧
        node.fault? = some cause ∧ ∀ earlier ∈ before, earlier.fault? = none := by
  constructor
  · intro value
    rw [evaluate_ok, first_fault_eq_none]
  · intro cause
    rw [evaluate_error]
    exact List.findSome?_eq_some_iff

/-- The least word has no negation. -/
example : (binary .divide (number (-0x8000000000000000)) (number (-1))).evaluate =
    .error .overflow := rfl

/-- The division comes after the sum, so it is not what is reported. -/
example : (binary .multiply (binary .add (number 0x7fffffffffffffff) (number 1))
    (binary .divide (number 1) (number 0))).evaluate = .error .overflow := rfl

end Expr

end Descent.Arithmetic
