import Descent.Script.Grammar

/-!
The shapes of trees in scripts: which operators stand where, and with what operands.
-/

namespace Descent.Script

/-- A lowercase letter followed by letters, digits and underscores, but no keyword. -/
def IsVariable (text : String) : Prop :=
  text ∉ keywords ∧
    ∃ first others, text.toList = first :: others ∧ first.isLower ∧
      ∀ char ∈ others, Text.isWordChar char

inductive Kind where
  | expression
  | block
  | statement

inductive Shaped : Kind → Tree → Prop where
  | number {value : Nat} (bounded : value ≤ (IntegerType.unsigned 64).greatest) :
      Shaped .expression (.number value)
  | name {text : String} (proper : IsVariable text) : Shaped .expression (.name text)
  | binary {operator : String} {lhs rhs : Tree} (arithmetic : operator ∈ ["+", "-", "*", "/"])
      (left : Shaped .expression lhs) (right : Shaped .expression rhs) :
      Shaped .expression (.node operator [lhs, rhs])
  | call {text : String} {arguments : List Tree} (proper : IsVariable text)
      (expressions : ∀ argument ∈ arguments, Shaped .expression argument) :
      Shaped .expression (.node "call" (.name text :: arguments))
  | oneBranch {condition consequence : Tree} (test : Shaped .expression condition)
      (first : Shaped .block consequence) :
      Shaped .expression (.node "if" [condition, consequence])
  | twoBlocks {condition consequence alternative : Tree} (test : Shaped .expression condition)
      (first : Shaped .block consequence) (second : Shaped .block alternative) :
      Shaped .expression (.node "if" [condition, consequence, alternative])
  | elseIf {condition consequence : Tree} {operands : List Tree}
      (test : Shaped .expression condition) (first : Shaped .block consequence)
      (second : Shaped .expression (.node "if" operands)) :
      Shaped .expression (.node "if" [condition, consequence, .node "if" operands])
  | block {statements : List Tree}
      (inner : ∀ statement ∈ statements, Shaped .statement statement) :
      Shaped .block (.node "block" statements)
  | expression {tree : Tree} (inner : Shaped .expression tree) : Shaped .statement tree
  | assignment {text : String} {value : Tree} (proper : IsVariable text)
      (inner : Shaped .expression value) : Shaped .statement (.node "=" [.name text, value])
  | definition {text : String} {names : List String} {body : Tree} (proper : IsVariable text)
      (listed : ∀ name ∈ names, IsVariable name) (inner : Shaped .block body) :
      Shaped .statement (.node "fn" [.name text, .node "params" (names.map .name), body])

end Descent.Script
