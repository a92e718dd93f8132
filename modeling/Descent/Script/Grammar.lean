import Descent.Grammar
import Descent.Parser.Listing
import Descent.Script.Tree

/-!
The grammar of scripts:

    program     := statement*
    statement   := definition | assignment ';' | conditional ';'? | sum ';'
    definition  := 'fn' name '(' (name (',' name)*)? ')' block
    block       := '{' statement* '}'
    assignment  := name '=' expression
    expression  := conditional | sum
    conditional := 'if' '(' expression ')' block ('else' (conditional | block))?
    sum         := product (('+' | '-') sum)?
    product     := factor (('*' | '/') product)?
    factor      := '(' expression ')' | call | number | name
    call        := name '(' (expression (',' expression)*)? ')'

ASCII spaces may stand between all tokens, and operators group to the right.
-/

namespace Descent.Script

open Descent.Parser

inductive Rule where
  | call
  | factor
  | product
  | sum
  | block
  | conditional
  | expression
  | assignment
  | definition
  | statement
deriving DecidableEq

/-- The words that cannot be names. -/
def keywords : List String := ["fn", "if", "else"]

/-- A whole word; a longer word that starts with it does not match. -/
def keyword (text : String) : Parser String := verify (token identifier) (· == text)

def variableName : Parser String := verify (token identifier) fun text => !keywords.contains text

def semicolon : Parser String := symbol ";"

def parenthesized {α : Type} (parser : Parser α) : Parser α :=
  between (symbol "(") (symbol ")") parser

/-- The items of a list that may be missing. -/
def items {α : Type} (list : Option (List α)) : List α := list.getD []

def callOf (expression : Parser Tree) : Parser Tree := do
  let name ← variableName
  let arguments ← parenthesized (optional (commaSeparated expression))
  pure (.node "call" (.name name :: items arguments))

def factorOf (expression call : Parser Tree) : Parser Tree :=
  choice [parenthesized expression, call, Tree.number <$> natural, Tree.name <$> variableName]

/-- An operand, and possibly an operator with the rest of the chain as its right operand. -/
def chainOf (operand : Parser Tree) (operator : Parser String) (tail : Parser Tree) :
    Parser Tree := do
  let lhs ← operand
  let continuation ← optional (Parser.sequence (operator, tail))
  match continuation with
  | some (operator, rhs) => pure (.node operator [lhs, rhs])
  | none => pure lhs

def blockOf (statement : Parser Tree) : Parser Tree :=
  Tree.node "block" <$> between (symbol "\x7b") (symbol "\x7d") (many statement)

def conditionalOf (expression block conditional : Parser Tree) : Parser Tree := do
  let _ ← keyword "if"
  let condition ← parenthesized expression
  let consequence ← block
  let alternative ← optional (precededBy (keyword "else") (conditional <|> block))
  pure (.node "if" (condition :: consequence :: alternative.toList))

def assignmentOf (expression : Parser Tree) : Parser Tree := do
  let name ← variableName
  let _ ← symbol "="
  let value ← expression
  pure (.node "=" [.name name, value])

def definitionOf (block : Parser Tree) : Parser Tree := do
  let _ ← keyword "fn"
  let name ← variableName
  let parameters ← parenthesized (optional (commaSeparated variableName))
  let body ← block
  pure (.node "fn" [.name name, .node "params" ((items parameters).map .name), body])

def statementOf (definition assignment conditional sum : Parser Tree) : Parser Tree :=
  choice [definition, terminatedBy assignment semicolon,
    terminatedBy conditional (optional semicolon), terminatedBy sum semicolon]

def productions (rule : Rule → Parser Tree) : Rule → Parser Tree
  | .call => callOf (rule .expression)
  | .factor => factorOf (rule .expression) (rule .call)
  | .product => chainOf (rule .factor) (symbol "*" <|> symbol "/") (rule .product)
  | .sum => chainOf (rule .product) (symbol "+" <|> symbol "-") (rule .sum)
  | .block => blockOf (rule .statement)
  | .conditional => conditionalOf (rule .expression) (rule .block) (rule .conditional)
  | .expression => rule .conditional <|> rule .sum
  | .assignment => assignmentOf (rule .expression)
  | .definition => definitionOf (rule .block)
  | .statement =>
      statementOf (rule .definition) (rule .assignment) (rule .conditional) (rule .sum)

/-- At one place a statement or an expression enters a sum, a product, a factor and a call, and
no rule twice: five rules are nested at most. -/
def grammar : Grammar Rule Tree where
  height := 5
  productions := productions

def parser : Rule → Parser Tree := grammar.parser

/-- Statements up to the end of the input. -/
def programOf (statement : Parser Tree) : Parser (List Tree) :=
  terminatedBy (many statement) (precededBy skipSpace endOfInput)

def program : Parser (List Tree) := programOf (parser .statement)

end Descent.Script
