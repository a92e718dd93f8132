import Descent.Proofs.Unfolding
import Descent.Script.Grammar

/-!
The productions of scripts, written out as bodies, call a rule again only on a shorter input. So the
grammar is guarded, and its rules solve the equations that its productions state: each rule is its
production over the rules.
-/

namespace Descent.Script

open Descent.Parser

/-- How many rules can be entered one inside the other at the place where a rule starts. -/
def Rule.rank : Rule → Nat
  | .call => 0
  | .factor => 1
  | .product => 2
  | .sum => 3
  | .block => 0
  | .conditional => 0
  | .expression => 4
  | .assignment => 0
  | .definition => 0
  | .statement => 4

theorem symbol_consumes (char : Char) : (symbol (String.singleton char)).Consumes :=
  token_consumes (literal_consumes char)

theorem identifier_consumes : identifier.Consumes := by
  intro input value rest run
  cases input with
  | nil => rw [identifier_nil] at run; contradiction
  | cons char others =>
      rw [identifier_cons] at run
      split at run
      · cases run
        exact Nat.lt_succ_of_le (List.dropWhile_suffix _).length_le
      · contradiction

theorem keyword_consumes (text : String) : (keyword text).Consumes :=
  verify_consumes (token_consumes identifier_consumes) _

theorem variable_name_consumes : variableName.Consumes :=
  verify_consumes (token_consumes identifier_consumes) _

theorem keyword_slices (text : String) : (keyword text).Slices :=
  verify_slices (token_slices identifier_slices) _

theorem variable_name_slices : variableName.Slices :=
  verify_slices (token_slices identifier_slices) _

def symbolBody (text : String) : Body Rule Tree String := .basic (symbol text) (symbol_slices text)

def keywordBody (text : String) : Body Rule Tree String :=
  .basic (keyword text) (keyword_slices text)

def nameBody : Body Rule Tree String := .basic variableName variable_name_slices

def parenthesizedBody {β : Type} (inner : Body Rule Tree β) : Body Rule Tree β :=
  .between (symbolBody "(") (symbolBody ")") inner

def listBody {β : Type} (item : Body Rule Tree β) : Body Rule Tree (Option (List β)) :=
  parenthesizedBody (.optional (.separated item (symbolBody ",")))

/-- What a chain is once its first operand and, possibly, the rest have been read. -/
def linked (lhs : Tree) (continuation : Option (String × Tree)) : Parser Tree :=
  match continuation with
  | some (operator, rhs) => pure (.node operator [lhs, rhs])
  | none => pure lhs

theorem linked_slices (lhs : Tree) (continuation : Option (String × Tree)) :
    (linked lhs continuation).Slices := by
  rcases continuation with _ | ⟨operator, rhs⟩ <;> exact pure_slices _

def chainBody (operand tail : Rule) (first second : String) : Body Rule Tree Tree :=
  .bind (.call operand) fun lhs =>
    .bind (.optional (.pair
        (.basic (symbol first <|> symbol second) (or_else_slices (symbol_slices _) (symbol_slices _)))
        (.call tail))) fun continuation =>
      .basic (linked lhs continuation) (linked_slices lhs continuation)

/-- The second branch of a conditional, which may be missing. -/
def elseBody : Body Rule Tree (Option Tree) :=
  .optional (.precededBy (keywordBody "else") (.orElse (.call .conditional) (.call .block)))

/-- The branches of a conditional, once its condition has been read. -/
def branchesBody (condition : Tree) : Body Rule Tree Tree :=
  .bind (.call .block) fun consequence => .bind elseBody fun alternative =>
    .pure (.node "if" (condition :: consequence :: alternative.toList))

/-- The production of a rule as a body. -/
def body : Rule → Body Rule Tree Tree
  | .call =>
      .bind nameBody fun name => .bind (listBody (.call .expression)) fun arguments =>
        .pure (.node "call" (.name name :: items arguments))
  | .factor =>
      .orElse (parenthesizedBody (.call .expression))
        (.orElse (.call .call)
          (.basic (Tree.number <$> natural <|> Tree.name <$> variableName)
            (or_else_slices (map_slices _ (token_slices (magnitude_slices _)))
              (map_slices _ variable_name_slices))))
  | .product => chainBody .factor .product "*" "/"
  | .sum => chainBody .product .sum "+" "-"
  | .block =>
      .map (Tree.node "block")
        (.between (symbolBody "\x7b") (symbolBody "\x7d") (.many (.call .statement)))
  | .conditional =>
      .bind (keywordBody "if") fun _ => .bind (parenthesizedBody (.call .expression)) branchesBody
  | .expression => .orElse (.call .conditional) (.call .sum)
  | .assignment =>
      .bind nameBody fun name => .bind (symbolBody "=") fun _ =>
        .bind (.call .expression) fun value => .pure (.node "=" [.name name, value])
  | .definition =>
      .bind (keywordBody "fn") fun _ => .bind nameBody fun name =>
        .bind (listBody nameBody) fun parameters => .bind (.call .block) fun inner =>
          .pure (.node "fn" [.name name, .node "params" ((items parameters).map .name), inner])
  | .statement =>
      .orElse (.call .definition)
        (.orElse (.terminatedBy (.call .assignment) (symbolBody ";"))
          (.orElse (.terminatedBy (.call .conditional) (.optional (symbolBody ";")))
            (.terminatedBy (.call .sum) (symbolBody ";"))))

/-- A script is read by its statements. -/
def programBody : Body Rule Tree (List Tree) :=
  .terminatedBy (.many (.call .statement))
    (.basic (precededBy skipSpace endOfInput)
      (preceded_by_slices skip_space_slices end_of_input_slices))

theorem body_run (rules : Rule → Parser Tree) (rule : Rule) :
    (body rule).run rules = productions rules rule := by
  cases rule with
  | call => rfl
  | factor =>
      rw [productions, factorOf, choice_cons, choice_cons, choice_cons, choice_singleton]
      rfl
  | product => rfl
  | sum => rfl
  | block => exact Body.map_run _ _
  | conditional => rfl
  | expression => rfl
  | assignment => rfl
  | definition => rfl
  | statement =>
      rw [productions, statementOf, choice_cons, choice_cons, choice_cons, choice_singleton]
      rfl

section Descends

variable {rules : Rule → Parser Tree} (slices : ∀ rule, (rules rule).Slices)
include slices

theorem chain_descends {beside : Rule → Prop} {operand tail : Rule} (first second : Char)
    (allowed : beside operand) :
    (chainBody operand tail (String.singleton first) (String.singleton second)).Descends
      beside rules := by
  have consumes := or_else_consumes (symbol_consumes first) (symbol_consumes second)
  refine .bind slices (.call allowed) fun lhs => ?_
  exact .bind slices (.optional (.opened slices consumes)) fun continuation => .basic _ _

theorem body_descends (rule : Rule) :
    (body rule).Descends (fun other => other.rank < rule.rank) rules := by
  cases rule with
  | call => exact .opened slices variable_name_consumes
  | factor =>
      have parenthesized := symbol_consumes '('
      exact .orElse (.opened slices parenthesized) (.orElse (.call (by decide)) (.basic _ _))
  | product => exact chain_descends slices '*' '/' (by decide)
  | sum => exact chain_descends slices '+' '-' (by decide)
  | block => exact .bind slices (.opened slices (symbol_consumes '\x7b')) fun inner => .basic _ _
  | conditional => exact .opened slices (keyword_consumes "if")
  | expression => exact .orElse (.call (by decide)) (.call (by decide))
  | assignment => exact .opened slices variable_name_consumes
  | definition => exact .opened slices (keyword_consumes "fn")
  | statement =>
      refine .orElse (.call (by decide)) (.orElse ?_ (.orElse ?_ ?_))
      · exact .terminatedBy slices (.call (by decide)) (.basic _ _)
      · exact .terminatedBy slices (.call (by decide)) (.optional (.basic _ _))
      · exact .terminatedBy slices (.call (by decide)) (.basic _ _)

end Descends

theorem grammar_written : grammar.WrittenAs body Rule.rank where
  rank_lt rule := by cases rule <;> decide
  run := body_run
  descends _ := body_descends

theorem grammar_guarded : grammar.Guarded Rule.rank := grammar_written.guarded

theorem parser_slices (rule : Rule) : (parser rule).Slices :=
  Grammar.parser_slices grammar_guarded rule

theorem parser_eq (rule : Rule) : parser rule = productions parser rule :=
  Grammar.parser_eq grammar_guarded rule

theorem chain_apply {operand tail : Parser Tree} {operator : Parser String} {input : List Char} :
    chainOf operand operator tail input =
      (operand input).andThen fun lhs rest =>
        match Parser.sequence (operator, tail) rest with
        | .matched (sign, rhs) last => .matched (.node sign [lhs, rhs]) last
        | .failed _ => .matched lhs rest := by
  rw [chainOf, bind_apply]
  congr
  funext lhs rest
  simp only [bind_apply, Parser.optional]
  cases Parser.sequence (operator, tail) rest with
  | failed stop => rfl
  | matched pair last => rfl

end Descent.Script
