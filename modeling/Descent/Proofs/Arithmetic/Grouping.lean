import Descent.Arithmetic.Calculator
import Descent.Proofs.Arithmetic.Chain

/-!
The two groupings side by side. Main statement: whichever way chains group, the calculator matches
the same part of its input, spaces at its end apart, with the same numbers and operators in the
same order, and otherwise fails at the same place.
-/

namespace Descent.Arithmetic

open Descent.Parser Text

/-- The numbers and operators of an expression from left to right. -/
def Expr.inOrder : Expr → List (Int ⊕ Operator)
  | number value => [.inl value]
  | binary operator lhs rhs => lhs.inOrder ++ .inr operator :: rhs.inOrder

/-- The numbers and operators of the rest of a chain. -/
def linksInOrder : List (Operator × Expr) → List (Int ⊕ Operator)
  | [] => []
  | (operator, operand) :: others => .inr operator :: operand.inOrder ++ linksInOrder others

theorem in_order_right (first : Expr) (others : List (Operator × Expr)) :
    (nestRight first others).inOrder = first.inOrder ++ linksInOrder others := by
  induction others generalizing first with
  | nil => exact (List.append_nil _).symm
  | cons link others ih =>
      rw [nestRight, Expr.inOrder, ih, linksInOrder, List.cons_append]

theorem links_in_order_concat (others : List (Operator × Expr)) (last : Operator × Expr) :
    linksInOrder (others ++ [last]) = linksInOrder others ++ .inr last.1 :: last.2.inOrder := by
  induction others with
  | nil => exact List.append_nil _
  | cons link others ih =>
      rw [List.cons_append, linksInOrder, linksInOrder, ih, List.append_assoc]

theorem in_order_left (first : Expr) (links : List (Operator × Expr)) :
    (nestLeft first links).inOrder = first.inOrder ++ linksInOrder links.reverse := by
  induction links with
  | nil => exact (List.append_nil _).symm
  | cons link earlier ih =>
      rw [nestLeft, Expr.inOrder, ih, List.reverse_cons, links_in_order_concat, List.append_assoc]

/-- Grouping keeps the order. -/
theorem in_order_group (associativity : Associativity) (first : Expr)
    (others : List (Operator × Expr)) :
    (associativity.group first others).inOrder = first.inOrder ++ linksInOrder others := by
  cases associativity with
  | right => exact in_order_right first others
  | left => rw [Associativity.group, in_order_left, List.reverse_reverse]

def SameOrder (expr other : Expr) : Prop := expr.inOrder = other.inOrder

theorem same_order_refl (expr : Expr) : SameOrder expr expr := rfl

theorem links_in_order {links others : List (Operator × Expr)}
    (same : List.Forall₂ (fun link other => link.1 = other.1 ∧ SameOrder link.2 other.2)
      links others) : linksInOrder links = linksInOrder others := by
  induction same with
  | nil => rfl
  | cons first _ ih => rw [linksInOrder, linksInOrder, first.1, first.2, ih]

theorem factor_alike {first second : Parser Expr} (input : List Char)
    (inner : ∀ shorter : List Char, shorter.length < input.length →
      (first shorter).Alike SameOrder (second shorter)) :
    (factorOf first input).Alike SameOrder (factorOf second input) := by
  rw [factorOf, factorOf, or_else_apply, or_else_apply, between_apply, between_apply]
  refine Outcome.Alike.or_else ?_ (.refl same_order_refl _)
  cases opened : token (character '(') input with
  | failed stop => exact .failed stop
  | matched sign middle =>
      simp only [Outcome.and_then_matched]
      apply (inner middle (character_consumes '(' input sign middle opened)).and_then
      intro value rest value' rest' _ _ values place
      apply (token_alike (character ')') _ rest rest' place (Nat.le_refl _)).and_then
      intro _ last _ last' _ _ _ reached
      exact .matched values reached

theorem chained_alike {first second : Parser Expr} {operator : Parser Operator}
    (slices : first.Slices) (slices' : second.Slices) (sign : operator.Slices)
    (consumes : operator.Consumes) (input : List Char)
    (operands : ∀ rest : List Char, rest.length ≤ input.length →
      (first rest).Alike SameOrder (second rest)) :
    (chained first operator input).Alike
      (fun chain other => chain.1.inOrder ++ linksInOrder chain.2 =
        other.1.inOrder ++ linksInOrder other.2)
      (chained second operator input) := by
  have operand := spaced_alike operands
  have links := many_alike (link_consumes slices consumes) (link_consumes slices' consumes)
    (pair_alike (token_slices sign) (token_alike operator _) operand)
  have alike := pair_alike (spaced_slices slices) operand links input input rfl (Nat.le_refl _)
  apply alike.imp
  intro chain other given
  obtain ⟨same, others⟩ := given
  rw [same, links_in_order others]

theorem parsers_alike (rule : Rule) (input : List Char) :
    (parser .right rule input).Alike SameOrder (parser .left rule input) := by
  induction rule, input using rule_induction with
  | factor input inner =>
      rw [factor_eq, factor_eq]
      exact factor_alike input inner
  | chain level input operands =>
      have right := chain_alike .right level input
      have left := (chain_alike .left level input).symm
      have between := chained_alike (parser_slices _ _) (parser_slices _ _)
        (level_slices level) (level_consumes level) input operands
      apply ((right.trans between).trans left).imp
      intro expr other given
      obtain ⟨chain', ⟨chain, rfl, same⟩, rfl⟩ := given
      rw [SameOrder, in_order_group, in_order_group, same]

theorem groupings_agree_on_prefixes (input : List Char) :
    ((∃ stop, Calculator.expression ⟨.right⟩ input = .failed stop ∧
        Calculator.expression ⟨.left⟩ input = .failed stop) ∨
      ∃ expr rest other last, Calculator.expression ⟨.right⟩ input = .matched expr rest ∧
        Calculator.expression ⟨.left⟩ input = .matched other last ∧
        rest.dropWhile isSpace = last.dropWhile isSpace ∧ expr.inOrder = other.inOrder) ∧
    ((∃ error, Calculator.parse ⟨.right⟩ input = .error error ∧
        Calculator.parse ⟨.left⟩ input = .error error) ∨
      ∃ expr other, Calculator.parse ⟨.right⟩ input = .ok expr ∧
        Calculator.parse ⟨.left⟩ input = .ok other ∧ expr.inOrder = other.inOrder) := by
  have alike : (Calculator.expression ⟨.right⟩ input).Alike SameOrder
      (Calculator.expression ⟨.left⟩ input) := parsers_alike .expr input
  constructor
  · generalize Calculator.expression ⟨.right⟩ input = outcome,
      Calculator.expression ⟨.left⟩ input = outcome' at alike
    cases alike with
    | failed stop =>
        left
        exact ⟨stop, rfl, rfl⟩
    | matched values place =>
        right
        exact ⟨_, _, _, _, rfl, rfl, place, values⟩
  · exact complete_alike alike

end Descent.Arithmetic
