import Descent.Arithmetic.Grammar
import Descent.Proofs.Unfolding

/-!
The productions of arithmetic, written out as bodies, call a rule again only on a shorter input. So
the grammar is guarded for either associativity, and its rules solve the equations that its
productions state. Terms and expressions are chains on two levels of precedence. Facts about the
rules rest on one induction: a factor enters an expression on a shorter input only, and a chain
enters the rule of its operands.
-/

namespace Descent.Arithmetic

open Descent.Parser

def Rule.rank : Rule → Nat
  | .factor => 0
  | .term => 1
  | .expr => 2

/-- The rule for chains of a level: expressions on the level of additive operators, and terms on
the other. -/
def chainRule : Bool → Rule
  | false => .term
  | true => .expr

def operandRule : Bool → Rule
  | false => .factor
  | true => .term

def levelOperator : Bool → Parser Operator
  | false => multiplicative
  | true => additive

theorem operator_slices (operator : Operator) : (operatorParser operator).Slices :=
  map_slices _ (satisfy_slices _)

theorem operator_consumes (operator : Operator) : (operatorParser operator).Consumes :=
  map_consumes _ (satisfy_consumes _)

theorem level_slices (level : Bool) : (levelOperator level).Slices := by
  cases level with
  | false => exact or_else_slices (operator_slices .multiply) (operator_slices .divide)
  | true => exact or_else_slices (operator_slices .add) (operator_slices .subtract)

theorem level_consumes (level : Bool) : (levelOperator level).Consumes := by
  cases level with
  | false => exact or_else_consumes (operator_consumes .multiply) (operator_consumes .divide)
  | true => exact or_else_consumes (operator_consumes .add) (operator_consumes .subtract)

theorem character_slices (char : Char) : (token (character char)).Slices :=
  token_slices (satisfy_slices _)

theorem character_consumes (char : Char) : (token (character char)).Consumes :=
  token_consumes (satisfy_consumes _)

theorem number_slices : number.Slices :=
  map_slices _ (bind_slices (magnitude_slices _) fun _ => pure_slices _)

def spaceBody : Body Rule Expr Unit := .basic skipSpace skip_space_slices

def characterBody (char : Char) : Body Rule Expr Char :=
  .basic (token (character char)) (character_slices char)

/-- An operator of a level with the operand on its right. -/
def linkBody (level : Bool) (operand : Rule) : Body Rule Expr (Operator × Expr) :=
  .pair (.basic (token (levelOperator level)) (token_slices (level_slices level))) (.call operand)

/-- What a chain is once its first operand and, possibly, the rest have been read. -/
def linked (lhs : Expr) (continuation : Option (Operator × Expr)) : Parser Expr :=
  match continuation with
  | some (operator, rhs) => pure (.binary operator lhs rhs)
  | none => pure lhs

theorem linked_slices (lhs : Expr) (continuation : Option (Operator × Expr)) :
    (linked lhs continuation).Slices := by
  rcases continuation with _ | ⟨operator, rhs⟩ <;> exact pure_slices _

def factorBody : Body Rule Expr Expr :=
  .orElse (.between (characterBody '(') (characterBody ')') (.call .expr))
    (.basic number number_slices)

def rightBody (level : Bool) : Body Rule Expr Expr :=
  .bind spaceBody fun _ => .bind (.call (operandRule level)) fun lhs =>
    .bind (.optional (.terminatedBy (linkBody level (chainRule level)) spaceBody))
      fun continuation => .basic (linked lhs continuation) (linked_slices lhs continuation)

def leftBody (level : Bool) : Body Rule Expr Expr :=
  .bind spaceBody fun _ => .bind (.call (operandRule level)) fun first =>
    .bind (.many (linkBody level (operandRule level))) fun others =>
      .bind spaceBody fun _ => .pure (foldLeft first others)

/-- The production of a rule as a body. -/
def body : Associativity → Rule → Body Rule Expr Expr
  | _, .factor => factorBody
  | .right, .term => rightBody false
  | .right, .expr => rightBody true
  | .left, .term => leftBody false
  | .left, .expr => leftBody true

theorem body_run (associativity : Associativity) (rules : Rule → Parser Expr) (rule : Rule) :
    (body associativity rule).run rules = productions associativity rules rule := by
  cases associativity <;> cases rule <;> rfl

theorem operand_rank_lt (level : Bool) : (operandRule level).rank < (chainRule level).rank := by
  cases level <;> decide

section Descends

variable {rules : Rule → Parser Expr} (slices : ∀ rule, (rules rule).Slices)
include slices

theorem factor_descends (beside : Rule → Prop) : factorBody.Descends beside rules :=
  .orElse (.opened slices (character_consumes '(')) (.basic _ _)

theorem link_descends (beside : Rule → Prop) (level : Bool) (operand : Rule) :
    (linkBody level operand).Descends beside rules :=
  .opened slices (token_consumes (level_consumes level))

theorem right_descends (level : Bool) :
    (rightBody level).Descends (fun other => other.rank < (chainRule level).rank) rules := by
  refine .bind slices (.basic _ _) fun _ => ?_
  refine .bind slices (.call (operand_rank_lt level)) fun lhs => ?_
  have link := link_descends slices (fun other => other.rank < (chainRule level).rank) level
  exact .bind slices (.optional (.terminatedBy slices (link _) (.basic _ _)))
    fun continuation => .basic _ _

theorem left_descends (level : Bool) :
    (leftBody level).Descends (fun other => other.rank < (chainRule level).rank) rules := by
  refine .bind slices (.basic _ _) fun _ => ?_
  refine .bind slices (.call (operand_rank_lt level)) fun first => ?_
  have link := link_descends slices (fun other => other.rank < (chainRule level).rank) level
  exact .bind slices (.many slices (link _)) fun others => .bind slices (.basic _ _) fun _ =>
    .basic _ _

theorem body_descends (associativity : Associativity) (rule : Rule) :
    (body associativity rule).Descends (fun other => other.rank < rule.rank) rules := by
  cases associativity with
  | right =>
      cases rule with
      | factor => exact factor_descends slices _
      | term => exact right_descends slices false
      | expr => exact right_descends slices true
  | left =>
      cases rule with
      | factor => exact factor_descends slices _
      | term => exact left_descends slices false
      | expr => exact left_descends slices true

end Descends

theorem grammar_written (associativity : Associativity) :
    (grammar associativity).WrittenAs (body associativity) Rule.rank where
  rank_lt rule := by
    show rule.rank < 3
    cases rule <;> decide
  run := body_run associativity
  descends _ slices := body_descends slices associativity

theorem grammar_guarded (associativity : Associativity) :
    (grammar associativity).Guarded Rule.rank := (grammar_written associativity).guarded

theorem parser_slices (associativity : Associativity) (rule : Rule) :
    (parser associativity rule).Slices :=
  Grammar.parser_slices (grammar_guarded associativity) rule

theorem parser_eq (associativity : Associativity) (rule : Rule) :
    parser associativity rule = productions associativity (parser associativity) rule :=
  Grammar.parser_eq (grammar_guarded associativity) rule

theorem factor_eq (associativity : Associativity) :
    parser associativity .factor = factorOf (parser associativity .expr) := by
  rw [parser_eq]
  cases associativity with
  | right => rfl
  | left => rfl

theorem right_chain_eq (level : Bool) :
    parser .right (chainRule level) =
      rightChain (parser .right (operandRule level)) (levelOperator level)
        (parser .right (chainRule level)) := by
  cases level with
  | false => exact parser_eq .right .term
  | true => exact parser_eq .right .expr

theorem left_chain_eq (level : Bool) :
    parser .left (chainRule level) =
      leftChain (parser .left (operandRule level)) (levelOperator level) := by
  cases level with
  | false => exact parser_eq .left .term
  | true => exact parser_eq .left .expr

/-- Induction along the grammar: expressions of shorter inputs come before a factor, and the
operands of a chain, wherever they start, before the chain. -/
theorem rule_induction {motive : Rule → List Char → Prop}
    (factor : ∀ input, (∀ shorter : List Char, shorter.length < input.length →
      motive .expr shorter) → motive .factor input)
    (chain : ∀ level input, (∀ rest : List Char, rest.length ≤ input.length →
      motive (operandRule level) rest) → motive (chainRule level) input)
    (rule : Rule) (input : List Char) : motive rule input := by
  have bounded (bound : Nat) : ∀ rule, ∀ input : List Char, input.length ≤ bound →
      motive rule input := by
    induction bound using Nat.strongRecOn with
    | ind bound ih =>
        have factors (input : List Char) (short : input.length ≤ bound) :
            motive .factor input := by
          apply factor
          intro shorter less
          exact ih shorter.length (by omega) .expr shorter (Nat.le_refl _)
        have terms (input : List Char) (short : input.length ≤ bound) : motive .term input := by
          apply chain false
          intro rest less
          exact factors rest (by omega)
        intro rule input short
        cases rule with
        | factor => exact factors input short
        | term => exact terms input short
        | expr =>
            apply chain true
            intro rest less
            exact terms rest (by omega)
  exact bounded input.length rule input (Nat.le_refl _)

end Descent.Arithmetic
