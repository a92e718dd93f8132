import Descent.Arithmetic.Printer
import Descent.Proofs.Arithmetic.Recognition
import Descent.Proofs.Writing

/-!
Printing expressions and parsing them back. On the side to which a chain groups, an operator takes
a shorter chain of its level, and on the other side an operand of the level. Parentheses stand just
where an operand is no phrase of the rule for its side. Main statement: every text that writes the
printed tokens of an expression is parsed to this expression.
-/

namespace Descent.Arithmetic

open Descent.Parser

variable {associativity : Associativity} {level : Bool} {tokens following : List Token}

/-- The rule that derives an expression from its printed tokens, without parentheses around it. -/
def Expr.rule : Expr → Rule
  | number _ => .factor
  | binary operator _ _ => chainRule operator.isAdditive

/-- The rule on one side of an operator of the level; `favoured` tells that chains group to it. -/
def sideRule (level favoured : Bool) : Rule :=
  if favoured then chainRule level else operandRule level

theorem needs_parentheses_eq (operator : Operator) (favoured : Bool) (operand : Expr) :
    Expr.needsParentheses operator favoured operand =
      decide ((sideRule operator.isAdditive favoured).rank < operand.rule.rank) := by
  cases operand with
  | number value => cases operator <;> cases favoured <;> rfl
  | binary inner lhs rhs => cases operator <;> cases favoured <;> cases inner <;> rfl

theorem language_single (level : Bool) {expr : Expr}
    (phrase : (operandRule level).Language associativity tokens expr) :
    (chainRule level).Language associativity tokens expr :=
  ⟨expr, [], derives_single phrase, (group_nil associativity expr).symm⟩

/-- A phrase of a rule is a phrase of every rule that enters it. -/
theorem language_mono {rule other : Rule} {expr : Expr} (below : rule.rank ≤ other.rank)
    (phrase : rule.Language associativity tokens expr) :
    other.Language associativity tokens expr := by
  have term (factor : Rule.factor.Language associativity tokens expr) :
      Rule.term.Language associativity tokens expr := language_single false factor
  have sum (term : Rule.term.Language associativity tokens expr) :
      Rule.expr.Language associativity tokens expr := language_single true term
  cases rule with
  | factor =>
      cases other with
      | factor => exact phrase
      | term => exact term phrase
      | expr => exact sum (term phrase)
  | term =>
      cases other with
      | factor => exact absurd below (by decide)
      | term => exact phrase
      | expr => exact sum phrase
  | expr =>
      cases other with
      | factor => exact absurd below (by decide)
      | term => exact absurd below (by decide)
      | expr => exact phrase

theorem language_expr {rule : Rule} {expr : Expr}
    (phrase : rule.Language associativity tokens expr) :
    Rule.expr.Language associativity tokens expr := by
  apply language_mono _ phrase
  cases rule <;> decide

theorem enclosed_language {expr : Expr}
    (phrase : Rule.expr.Language associativity tokens expr) :
    Rule.factor.Language associativity (.sign '(' :: tokens ++ [.sign ')']) expr := by
  obtain ⟨first, others, derives, rfl⟩ := phrase
  exact ⟨_, [], .parentheses derives, (group_nil _ _).symm⟩

theorem operand_language (operator : Operator) (favoured : Bool) {operand : Expr}
    (phrase : operand.rule.Language associativity tokens operand) :
    (sideRule operator.isAdditive favoured).Language associativity
      (Expr.enclose (Expr.needsParentheses operator favoured operand) tokens) operand := by
  rw [needs_parentheses_eq]
  by_cases looser : (sideRule operator.isAdditive favoured).rank < operand.rule.rank
  · rw [decide_eq_true looser]
    exact language_mono (Nat.zero_le _) (enclosed_language (language_expr phrase))
  · rw [decide_eq_false looser]
    exact language_mono (Nat.le_of_not_lt looser) phrase

/-- A chain goes on with one more operator and operand. -/
theorem derives_concat {first expr : Expr} {others : List (Operator × Expr)}
    {operator : Operator}
    (chain : Derives associativity (chainRule level) tokens first others)
    (same : operator.isAdditive = level)
    (phrase : (operandRule level).Language associativity following expr) :
    Derives associativity (chainRule level) (tokens ++ .sign operator.symbol :: following) first
      (others ++ [(operator, expr)]) := by
  apply chain_induction (motive := fun tokens first others => Derives associativity
    (chainRule level) (tokens ++ .sign operator.symbol :: following) first
      (others ++ [(operator, expr)])) _ _ chain
  · intro tokens first operand
    exact derives_longer operand same (derives_single phrase)
  · intro tokens first rest next others sign operand level more
    rw [List.append_assoc, List.cons_append]
    exact derives_longer operand level more

theorem group_left_concat (first expr : Expr) (others : List (Operator × Expr))
    (operator : Operator) :
    Associativity.left.group first (others ++ [(operator, expr)]) =
      .binary operator (Associativity.left.group first others) expr := by
  rw [Associativity.group, List.reverse_concat, nestLeft, Associativity.group]

/-- The operands on both sides of an operator make a chain that groups at this operator. -/
theorem binary_language (operator : Operator) {lhs rhs : Expr}
    (left : (sideRule operator.isAdditive (associativity = .left)).Language associativity
      tokens lhs)
    (right : (sideRule operator.isAdditive (associativity = .right)).Language associativity
      following rhs) :
    (chainRule operator.isAdditive).Language associativity
      (tokens ++ .sign operator.symbol :: following) (.binary operator lhs rhs) := by
  cases associativity with
  | right =>
      obtain ⟨first, others, chain, rfl⟩ := right
      exact ⟨_, _, derives_longer left rfl chain, rfl⟩
  | left =>
      obtain ⟨first, others, chain, rfl⟩ := left
      exact ⟨_, _, derives_concat chain rfl right, (group_left_concat _ _ _ _).symm⟩

/-- The printed tokens of an expression derive it. -/
theorem tokens_language (associativity : Associativity) {expr : Expr}
    (unsigned : ∀ value ∈ expr.literals, 0 ≤ value) :
    expr.rule.Language associativity (expr.tokens associativity) expr := by
  induction expr with
  | number value =>
      obtain ⟨numeral, rfl⟩ := Int.eq_ofNat_of_zero_le (unsigned value List.mem_cons_self)
      exact ⟨_, [], .number numeral, (group_nil _ _).symm⟩
  | binary operator lhs rhs ih ihRight =>
      obtain ⟨left, right⟩ := List.forall_mem_append.mp unsigned
      exact binary_language operator (operand_language operator _ (ih left))
        (operand_language operator _ (ihRight right))

theorem lexicon_plain : lexicon.Plain := Lexicon.plain_of_all rfl

theorem enclosed_held {enclosed : Bool} (held : ∀ token ∈ tokens, lexicon.Holds token) :
    ∀ token ∈ Expr.enclose enclosed tokens, lexicon.Holds token := by
  cases enclosed with
  | false => exact held
  | true =>
      have opening : '(' ∈ lexicon.signs := by decide
      have closing : ')' ∈ lexicon.signs := by decide
      exact List.forall_mem_append.mpr ⟨List.forall_mem_cons.mpr ⟨opening, held⟩,
        List.forall_mem_singleton.mpr closing⟩

theorem tokens_held (associativity : Associativity) {expr : Expr}
    (fits : ∀ value ∈ expr.literals, FitsWord value) :
    ∀ token ∈ expr.tokens associativity, lexicon.Holds token := by
  induction expr with
  | number value =>
      obtain ⟨-, below⟩ := fits value List.mem_cons_self
      have greatest : (IntegerType.signed 64).greatest = 0x7fffffffffffffff := rfl
      have bounded : value.toNat ≤ (IntegerType.signed 64).greatest := by omega
      exact List.forall_mem_singleton.mpr (decide_eq_true bounded)
  | binary operator lhs rhs ih ihRight =>
      obtain ⟨left, right⟩ := List.forall_mem_append.mp fits
      exact List.forall_mem_append.mpr ⟨enclosed_held (ih left),
        List.forall_mem_cons.mpr ⟨symbol_known operator, enclosed_held (ihRight right)⟩⟩

theorem printed_expression_is_parsed (calculator : Calculator) (expr : Expr)
    (literals : ∀ value ∈ expr.literals, 0 ≤ value ∧ FitsWord value) (text : List Char)
    (written : Token.Written (expr.tokens calculator.associativity) text) :
    calculator.parse text = .ok expr := by
  have held := tokens_held calculator.associativity fun value member => (literals value member).2
  have phrase :=
    tokens_language calculator.associativity fun value member => (literals value member).1
  exact parse_of_derives (written.reads lexicon_plain held) (language_expr phrase)

/-- The difference of `(1 + 2) * 3` and `4 - 5`, in which only a left grouping needs parentheses
around the right operand. -/
def nestedDifference : Expr :=
  .binary .subtract
    (.binary .multiply (.binary .add (.number 1) (.number 2)) (.number 3))
    (.binary .subtract (.number 4) (.number 5))

theorem nested_difference_is_parsed :
    (∀ value ∈ nestedDifference.literals, 0 ≤ value ∧ FitsWord value) ∧
      Token.Written (nestedDifference.tokens .left) " ( 1 + 2 ) * 3 - ( 4 - 5 )".toList ∧
      Calculator.parse ⟨.left⟩ " ( 1 + 2 ) * 3 - ( 4 - 5 )".toList = .ok nestedDifference ∧
      Token.Written (nestedDifference.tokens .right) " ( 1 + 2 ) * 3 - 4 - 5".toList ∧
      Calculator.parse ⟨.right⟩ " ( 1 + 2 ) * 3 - 4 - 5".toList = .ok nestedDifference := by
  have literals : ∀ value ∈ nestedDifference.literals, 0 ≤ value ∧ FitsWord value := by decide
  have left := Token.Written.apart (nestedDifference.tokens .left)
  have right := Token.Written.apart (nestedDifference.tokens .right)
  exact ⟨literals, left, printed_expression_is_parsed ⟨.left⟩ _ literals _ left, right,
    printed_expression_is_parsed ⟨.right⟩ _ literals _ right⟩

end Descent.Arithmetic
