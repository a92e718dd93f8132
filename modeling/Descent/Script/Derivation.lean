import Descent.Script.Grammar
import Descent.Token

/-!
The grammar of scripts over tokens, as a relation between a phrase, the tokens that it derives and
the trees that it stands for. Nothing here depends on an order in which alternatives are tried.
-/

namespace Descent.Script

/-- Numerals fit an unsigned word of 64 bits. -/
def lexicon : Lexicon where
  hasWords := true
  admits value := value ≤ (IntegerType.unsigned 64).greatest
  signs := ['(', ')', '\x7b', '\x7d', ',', ';', '=', '+', '-', '*', '/']

def IsName (text : String) : Prop := text ∉ keywords

/-- What the grammar derives: the rules, which stand for one tree, and their lists. -/
inductive Phrase where
  | rule (rule : Rule)
  | names
  | parameters
  | expressions
  | arguments
  | statements

inductive Derives : Phrase → List Token → List Tree → Prop where
  | name {text : String} (proper : IsName text) :
      Derives (.rule .factor) [.word text] [.name text]
  | number (value : Nat) : Derives (.rule .factor) [.numeral value] [.number value]
  | parentheses {tokens : List Token} {tree : Tree}
      (inner : Derives (.rule .expression) tokens [tree]) :
      Derives (.rule .factor) (.sign '(' :: tokens ++ [.sign ')']) [tree]
  | factorCall {tokens : List Token} {tree : Tree} (call : Derives (.rule .call) tokens [tree]) :
      Derives (.rule .factor) tokens [tree]
  | call {text : String} {tokens : List Token} {trees : List Tree} (proper : IsName text)
      (inner : Derives .arguments tokens trees) :
      Derives (.rule .call) (.word text :: .sign '(' :: tokens ++ [.sign ')'])
        [.node "call" (.name text :: trees)]
  | noArgument : Derives .arguments [] []
  | someArguments {tokens : List Token} {trees : List Tree}
      (inner : Derives .expressions tokens trees) : Derives .arguments tokens trees
  | lastExpression {tokens : List Token} {tree : Tree}
      (last : Derives (.rule .expression) tokens [tree]) : Derives .expressions tokens [tree]
  | nextExpression {tokens following : List Token} {tree : Tree} {trees : List Tree}
      (first : Derives (.rule .expression) tokens [tree])
      (others : Derives .expressions following trees) :
      Derives .expressions (tokens ++ .sign ',' :: following) (tree :: trees)
  | lastFactor {tokens : List Token} {tree : Tree}
      (operand : Derives (.rule .factor) tokens [tree]) : Derives (.rule .product) tokens [tree]
  | nextFactor {tokens following : List Token} {lhs rhs : Tree} {operator : Char}
      (operand : Derives (.rule .factor) tokens [lhs]) (level : operator ∈ ['*', '/'])
      (chain : Derives (.rule .product) following [rhs]) :
      Derives (.rule .product) (tokens ++ .sign operator :: following)
        [.node operator.toString [lhs, rhs]]
  | lastProduct {tokens : List Token} {tree : Tree}
      (operand : Derives (.rule .product) tokens [tree]) : Derives (.rule .sum) tokens [tree]
  | nextProduct {tokens following : List Token} {lhs rhs : Tree} {operator : Char}
      (operand : Derives (.rule .product) tokens [lhs]) (level : operator ∈ ['+', '-'])
      (chain : Derives (.rule .sum) following [rhs]) :
      Derives (.rule .sum) (tokens ++ .sign operator :: following)
        [.node operator.toString [lhs, rhs]]
  | block {tokens : List Token} {trees : List Tree} (inner : Derives .statements tokens trees) :
      Derives (.rule .block) (.sign '\x7b' :: tokens ++ [.sign '\x7d']) [.node "block" trees]
  | oneBranch {condition consequence : List Token} {test body : Tree}
      (tested : Derives (.rule .expression) condition [test])
      (first : Derives (.rule .block) consequence [body]) :
      Derives (.rule .conditional)
        (.word "if" :: .sign '(' :: condition ++ .sign ')' :: consequence)
        [.node "if" [test, body]]
  | twoBranches {condition consequence alternative : List Token} {test body other : Tree}
      {rule : Rule} (tested : Derives (.rule .expression) condition [test])
      (first : Derives (.rule .block) consequence [body])
      (kind : rule ∈ [Rule.conditional, Rule.block])
      (second : Derives (.rule rule) alternative [other]) :
      Derives (.rule .conditional)
        (.word "if" :: .sign '(' :: condition ++ .sign ')' :: consequence ++
          .word "else" :: alternative)
        [.node "if" [test, body, other]]
  | expressionConditional {tokens : List Token} {tree : Tree}
      (conditional : Derives (.rule .conditional) tokens [tree]) :
      Derives (.rule .expression) tokens [tree]
  | expressionSum {tokens : List Token} {tree : Tree} (sum : Derives (.rule .sum) tokens [tree]) :
      Derives (.rule .expression) tokens [tree]
  | assignment {text : String} {tokens : List Token} {tree : Tree} (proper : IsName text)
      (value : Derives (.rule .expression) tokens [tree]) :
      Derives (.rule .assignment) (.word text :: .sign '=' :: tokens)
        [.node "=" [.name text, tree]]
  | noParameter : Derives .parameters [] []
  | someParameters {tokens : List Token} {trees : List Tree}
      (inner : Derives .names tokens trees) : Derives .parameters tokens trees
  | lastName {text : String} (proper : IsName text) : Derives .names [.word text] [.name text]
  | nextName {text : String} {following : List Token} {trees : List Tree} (proper : IsName text)
      (others : Derives .names following trees) :
      Derives .names (.word text :: .sign ',' :: following) (.name text :: trees)
  | definition {text : String} {parameters tokens : List Token} {names : List Tree} {body : Tree}
      (proper : IsName text) (listed : Derives .parameters parameters names)
      (inner : Derives (.rule .block) tokens [body]) :
      Derives (.rule .definition)
        (.word "fn" :: .word text :: .sign '(' :: parameters ++ .sign ')' :: tokens)
        [.node "fn" [.name text, .node "params" names, body]]
  | statementDefinition {tokens : List Token} {tree : Tree}
      (inner : Derives (.rule .definition) tokens [tree]) :
      Derives (.rule .statement) tokens [tree]
  | statementAssignment {tokens : List Token} {tree : Tree}
      (inner : Derives (.rule .assignment) tokens [tree]) :
      Derives (.rule .statement) (tokens ++ [.sign ';']) [tree]
  | statementConditional {tokens : List Token} {tree : Tree}
      (inner : Derives (.rule .conditional) tokens [tree]) :
      Derives (.rule .statement) tokens [tree]
  | statementClosed {tokens : List Token} {tree : Tree}
      (inner : Derives (.rule .conditional) tokens [tree]) :
      Derives (.rule .statement) (tokens ++ [.sign ';']) [tree]
  | statementSum {tokens : List Token} {tree : Tree}
      (inner : Derives (.rule .sum) tokens [tree]) :
      Derives (.rule .statement) (tokens ++ [.sign ';']) [tree]
  | noStatement : Derives .statements [] []
  | nextStatement {tokens following : List Token} {tree : Tree} {trees : List Tree}
      (first : Derives (.rule .statement) tokens [tree])
      (others : Derives .statements following trees) :
      Derives .statements (tokens ++ following) (tree :: trees)

/-- The text is a phrase that stands for these trees. -/
def Expresses (phrase : Phrase) (source : List Char) (trees : List Tree) : Prop :=
  ∃ tokens, lexicon.tokens? source = some tokens ∧ Derives phrase tokens trees

end Descent.Script
