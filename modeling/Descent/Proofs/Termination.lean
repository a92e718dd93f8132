import Descent.Proofs.Arithmetic.Unfolding
import Descent.Proofs.Evaluation
import Descent.Proofs.Script.Unfolding

/-!
Both grammars terminate on every input. That a rule comes back to itself inside itself only on shorter
inputs is what makes the grammars guarded; what is left to see is that a rule which calls another one
several times, for the items of a list, the statements of a block, the branches of a conditional or
the operands of a chain, calls it each time behind the place of the call before.
-/

namespace Descent

open Descent.Parser

namespace Script

section Advances

variable {rules : Rule → Parser Tree}

theorem parenthesized_advances {β : Type} {inner : Body Rule Tree β} {called : List Rule}
    (advances : inner.Advances rules called) : (parenthesizedBody inner).Advances rules called :=
  .bind_basic fun _ => .ended advances fun _ => .bind_basic fun _ => .basic _ _

theorem closed_advances {β : Type} {inner : Rule} {closing : Body Rule Tree β}
    (closes : closing.Advances rules []) :
    (Body.terminatedBy (.call inner) closing).Advances rules [inner] :=
  .ended (.call inner) fun _ => .ended closes fun _ => .basic _ _

theorem chain_advances {operand tail : Rule} (first second : String) (apart : operand ≠ tail) :
    (chainBody operand tail first second).Advances rules [operand, tail] := by
  refine .bind ?_ (.call operand) fun lhs => .ended (.optional ?_) fun continuation => .basic _ _
  · simpa using apart
  · exact .bind_basic fun _ => .map _ (.call tail)

theorem else_advances : elseBody.Advances rules [.conditional, .block] := by
  have either : ((Body.call .conditional).orElse (.call .block)).Advances rules
      ([Rule.conditional] ++ [Rule.block]) := .orElse (by decide) (.call _) (.call _)
  exact .optional (.bind_basic fun _ => either)

variable (slices : ∀ rule, (rules rule).Slices)
include slices

theorem list_advances {β : Type} {item : Body Rule Tree β} {called : List Rule}
    (here : item.CallsHere rules) (advances : item.Advances rules called) :
    (listBody item).Advances rules (called ++ called) :=
  parenthesized_advances (.optional (.separated slices (symbol_consumes ',') here advances))

/-- The second block of a conditional stands behind a keyword that stands behind the first. -/
theorem branches_advances (condition : Tree) :
    (branchesBody condition).Advances rules ([.block] ++ [.conditional, .block]) := by
  have behind : elseBody.Descends (fun _ => False) rules :=
    .optional (.opened slices (keyword_consumes "else"))
  apply Body.Advances.bind_behind slices (.call Rule.block) _ (.call Rule.block)
  · exact fun consequence => .ended else_advances fun alternative => .basic _ _
  · exact fun consequence => .bind slices behind fun alternative => .basic _ _

theorem body_advances (rule : Rule) : ∃ called, (body rule).Advances rules called := by
  cases rule with
  | call =>
      have listed := list_advances slices (.call _) (.call .expression)
      exact ⟨_, .bind_basic fun name => .ended listed fun arguments => .basic _ _⟩
  | factor =>
      have inner : (parenthesizedBody (.call .expression)).Advances rules [.expression] :=
        parenthesized_advances (.call _)
      exact ⟨_, .orElse (by decide) inner (.orElse (by decide) (.call _) (.basic _ _))⟩
  | product => exact ⟨_, chain_advances "*" "/" (by decide)⟩
  | sum => exact ⟨_, chain_advances "+" "-" (by decide)⟩
  | block =>
      have statements := Body.Advances.many_here slices (.call .statement) (.call _)
      exact ⟨_, .map _ (.bind_basic fun _ => .ended statements fun _ => .bind_basic fun _ =>
        .basic _ _)⟩
  | conditional =>
      have condition : (parenthesizedBody (.call .expression)).Advances rules [.expression] :=
        parenthesized_advances (.call _)
      exact ⟨_, .bind_basic fun _ => .bind (by decide) condition (branches_advances slices)⟩
  | expression => exact ⟨_, .orElse (by decide) (.call _) (.call _)⟩
  | assignment =>
      exact ⟨_, .bind_basic fun name => .bind_basic fun _ => .ended (.call _) fun value =>
        .basic _ _⟩
  | definition =>
      have parameters := list_advances slices (.basic _ _) (.basic _ variable_name_slices)
      exact ⟨_, .bind_basic fun _ => .bind_basic fun name =>
        .bind (List.forall_mem_nil _) parameters fun _ => .ended (.call _) fun inner => .basic _ _⟩
  | statement =>
      exact ⟨_, .orElse (by decide) (.call _) (.orElse (by decide) (closed_advances (.basic _ _))
        (.orElse (by decide) (closed_advances (.optional (.basic _ _)))
          (closed_advances (.basic _ _))))⟩

end Advances

end Script

namespace Arithmetic

variable {rules : Rule → Parser Expr}

theorem factor_advances : factorBody.Advances rules ([.expr] ++ []) := by
  have inner : (Body.between (characterBody '(') (characterBody ')') (.call .expr)).Advances rules
      [Rule.expr] :=
    .bind_basic fun _ => .ended (.call _) fun _ => .bind_basic fun _ => .basic _ _
  exact .orElse (by decide) inner (.basic _ _)

theorem right_advances (level : Bool) :
    (rightBody level).Advances rules ([operandRule level] ++ [chainRule level]) := by
  have link : (linkBody level (chainRule level)).Advances rules [chainRule level] :=
    .bind_basic fun _ => .map _ (.call _)
  have apart : ∀ rule ∈ [operandRule level], rule ∉ [chainRule level] := by
    cases level <;> decide
  refine .bind_basic fun _ => .bind apart (.call _) fun lhs => ?_
  refine .ended (.optional (.ended link fun _ => ?_)) fun continuation => .basic _ _
  exact .bind_basic fun _ => .basic _ _

theorem left_advances (slices : ∀ rule, (rules rule).Slices) (level : Bool) :
    (leftBody level).Advances rules ([operandRule level] ++ [operandRule level]) := by
  have consumes := token_consumes (level_consumes level)
  have links : (Body.many (linkBody level (operandRule level))).Advances rules
      [operandRule level] :=
    .many_opened slices consumes (fun _ => .map _ (.call _)) fun _ => .map _ (.call _)
  have behind : (Body.many (linkBody level (operandRule level))).Descends (fun _ => False) rules :=
    .many slices (link_descends slices _ level _)
  refine .bind_basic fun _ => .bind_behind slices (.call _) (fun first => ?_) (.call _)
    fun first => ?_
  · exact .bind slices behind fun others => .bind slices (.basic _ _) fun _ => .basic _ _
  · exact .ended links fun others => .bind_basic fun _ => .basic _ _

theorem body_advances (slices : ∀ rule, (rules rule).Slices) (associativity : Associativity)
    (rule : Rule) : ∃ called, (body associativity rule).Advances rules called := by
  cases associativity with
  | right =>
      cases rule with
      | factor => exact ⟨_, factor_advances⟩
      | term => exact ⟨_, right_advances false⟩
      | expr => exact ⟨_, right_advances true⟩
  | left =>
      cases rule with
      | factor => exact ⟨_, factor_advances⟩
      | term => exact ⟨_, left_advances slices false⟩
      | expr => exact ⟨_, left_advances slices true⟩

end Arithmetic

/-- Evaluation of every rule ends on every input, for scripts and for arithmetic. -/
theorem rules_terminate :
    Script.grammar.Terminates Script.body ∧
      Script.grammar.Ends Script.body Script.programBody Script.program ∧
      Script.grammar.Ends Script.body Script.nameBody Script.variableName ∧
      ∀ associativity,
        (Arithmetic.grammar associativity).Terminates (Arithmetic.body associativity) := by
  have slices := Script.parser_slices
  have statements : Script.programBody.Advances Script.parser [.statement] :=
    .ended (.many_here slices (.call _) (.call _)) fun _ => .bind_basic fun _ => .basic _ _
  refine ⟨?_, ?_, ?_, ?_⟩
  · exact Script.grammar_written.terminates (Script.body_advances slices)
  · exact Script.grammar_written.ends rfl statements
  · exact Script.grammar_written.ends rfl (.basic _ _)
  · intro associativity
    have advances := Arithmetic.body_advances (Arithmetic.parser_slices associativity) associativity
    exact (Arithmetic.grammar_written associativity).terminates advances

/-- A factor in parentheses comes back to factors behind the opening parenthesis, and the second
argument of a call is read behind the first. -/
theorem parenthesized_factor_terminates :
    evaluate Script.body 20 .factor "(1)".toList = some (.matched (.number 1) []) ∧
      Relation.TransGen (Activates Script.body Script.grammar.parser)
        (.factor, "(1)".toList) (.factor, "1)".toList) ∧
      "1)".toList.length < "(1)".toList.length ∧
      (Script.body .call).calls Script.grammar.parser "f(1,2)".toList =
        [(.expression, "1,2)".toList), (.expression, "2)".toList)] ∧
      "2)".toList.length < "1,2)".toList.length := by
  have expression : Activates Script.body Script.grammar.parser
      (.factor, "(1)".toList) (.expression, "1)".toList) := by decide +kernel
  have sum : Activates Script.body Script.grammar.parser
      (.expression, "1)".toList) (.sum, "1)".toList) := by decide +kernel
  have product : Activates Script.body Script.grammar.parser
      (.sum, "1)".toList) (.product, "1)".toList) := by decide +kernel
  have factor : Activates Script.body Script.grammar.parser
      (.product, "1)".toList) (.factor, "1)".toList) := by decide +kernel
  have nested := (((Relation.TransGen.single expression).tail sum).tail product).tail factor
  have run : Script.grammar.parser .factor "(1)".toList = .matched (.number 1) [] := by
    decide +kernel
  have arguments : (Script.body .call).calls Script.grammar.parser "f(1,2)".toList =
      [(.expression, "1,2)".toList), (.expression, "2)".toList)] := by decide +kernel
  have scripts := rules_terminate.1
  have forward := (scripts.ends .call).forward "f(1,2)".toList
  rw [arguments] at forward
  refine ⟨?_, nested, (scripts.reenters _ _ _ nested).2, arguments, ?_⟩
  · rw [scripts.finishes .factor "(1)".toList 20 (by decide), run]
  · exact List.rel_of_pairwise_cons forward (List.mem_singleton_self _) rfl

end Descent
