import Descent.Arithmetic.Grammar
import Descent.Token

/-!
The grammar of arithmetic expressions over tokens, and the tree of a derivation. A chain of
operators of one precedence is derived as a first operand and a list of further operators and
operands; only then does the associativity group it.
-/

namespace Descent.Arithmetic

def signs : List Char := ['(', ')', '+', '-', '*', '/']

/-- Literals fit a signed word of 64 bits, and there are no words. -/
def lexicon : Lexicon where
  hasWords := false
  admits value := value ≤ (IntegerType.signed 64).greatest
  signs := signs

/-- The lexicon with literals of any size. -/
def unboundedLexicon : Lexicon where
  hasWords := false
  admits _ := true
  signs := signs

/-- A chain with its first operator at the root; the rest of the chain is the right operand. -/
def nestRight (first : Expr) : List (Operator × Expr) → Expr
  | [] => first
  | (operator, next) :: others => .binary operator first (nestRight next others)

/-- A chain with its last operator at the root; the chain before it is the left operand. The links
are listed from the last one back to the first. -/
def nestLeft (first : Expr) : List (Operator × Expr) → Expr
  | [] => first
  | (operator, last) :: earlier => .binary operator (nestLeft first earlier) last

/-- The tree of a chain. -/
def Associativity.group : Associativity → Expr → List (Operator × Expr) → Expr
  | right, first, others => nestRight first others
  | left, first, others => nestLeft first others.reverse

def Operator.isAdditive : Operator → Bool
  | add => true
  | subtract => true
  | multiply => false
  | divide => false

/-- The phrases that the grammar derives. A term is a chain of factors, an expression a chain of
terms, and a factor has no further operands. -/
inductive Derives (associativity : Associativity) :
    Rule → List Token → Expr → List (Operator × Expr) → Prop where
  | number (value : Nat) :
      Derives associativity .factor [.numeral value] (.number value) []
  | parentheses {tokens : List Token} {first : Expr} {others : List (Operator × Expr)}
      (inner : Derives associativity .expr tokens first others) :
      Derives associativity .factor (.sign '(' :: tokens ++ [.sign ')'])
        (associativity.group first others) []
  | lastFactor {tokens : List Token} {factor : Expr}
      (operand : Derives associativity .factor tokens factor []) :
      Derives associativity .term tokens factor []
  | nextFactor {tokens following : List Token} {factor first : Expr}
      {others : List (Operator × Expr)} {operator : Operator}
      (operand : Derives associativity .factor tokens factor [])
      (level : operator.isAdditive = false)
      (chain : Derives associativity .term following first others) :
      Derives associativity .term (tokens ++ .sign operator.symbol :: following) factor
        ((operator, first) :: others)
  | lastTerm {tokens : List Token} {first : Expr} {others : List (Operator × Expr)}
      (operand : Derives associativity .term tokens first others) :
      Derives associativity .expr tokens (associativity.group first others) []
  | nextTerm {tokens following : List Token} {first next : Expr}
      {others further : List (Operator × Expr)} {operator : Operator}
      (operand : Derives associativity .term tokens first others)
      (level : operator.isAdditive = true)
      (chain : Derives associativity .expr following next further) :
      Derives associativity .expr (tokens ++ .sign operator.symbol :: following)
        (associativity.group first others) ((operator, next) :: further)

/-- The text is an expression with this tree. -/
def Expresses (associativity : Associativity) (input : List Char) (expr : Expr) : Prop :=
  ∃ tokens first others, lexicon.tokens? input = some tokens ∧
    Derives associativity .expr tokens first others ∧ expr = associativity.group first others

end Descent.Arithmetic
