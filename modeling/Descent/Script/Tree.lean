/-!
Trees of scripts. A node is a leaf, which holds a number or a name, or an operator applied to
operands. The operators that the grammar makes are

    + - * /   the two operands
    =         the name and the value
    call      the name and the arguments
    if        the condition, the block, and possibly the other branch
    block     the statements
    fn        the name, the parameters and the block
    params    the names
-/

namespace Descent.Script

inductive Scalar where
  | number (value : Nat)
  | name (text : String)
deriving DecidableEq, Inhabited

def Scalar.text : Scalar → String
  | number value => toString value
  | name text => text

inductive Tree where
  | leaf (scalar : Scalar)
  | node (operator : String) (operands : List Tree)
deriving Inhabited

namespace Tree

def number (value : Nat) : Tree := leaf (.number value)

def name (text : String) : Tree := leaf (.name text)

/-- The operator of a node. A leaf has none, for which a question mark stands. -/
def operator : Tree → String
  | leaf _ => "?"
  | node operator _ => operator

def operands : Tree → List Tree
  | leaf _ => []
  | node _ operands => operands

def scalar? : Tree → Option Scalar
  | leaf scalar => some scalar
  | node _ _ => none

def isLeaf : Tree → Bool
  | leaf _ => true
  | node _ _ => false

mutual

/-- A tree and all trees below it, each before its operands. -/
def preorder : Tree → List Tree
  | leaf scalar => [leaf scalar]
  | node operator operands => node operator operands :: preorders operands

def preorders : List Tree → List Tree
  | [] => []
  | tree :: trees => preorder tree ++ preorders trees

end

mutual

/-- What each tree shows in print, its operator or the scalar of a leaf, in preorder; the tree
itself is at the level `depth`, and every operand one level below its node. -/
def levels (depth : Nat) : Tree → List (Nat × String)
  | leaf scalar => [(depth, scalar.text)]
  | node operator operands => (depth, operator) :: levelsAll (depth + 1) operands

def levelsAll (depth : Nat) : List Tree → List (Nat × String)
  | [] => []
  | tree :: trees => levels depth tree ++ levelsAll depth trees

end

mutual

def decideEq : (first second : Tree) → Decidable (first = second)
  | leaf scalar, leaf other =>
      if equal : scalar = other then isTrue (by rw [equal])
      else isFalse (by simpa using equal)
  | leaf _, node _ _ => isFalse (by simp)
  | node _ _, leaf _ => isFalse (by simp)
  | node operator operands, node other others =>
      if equal : operator = other then
        match decideEqAll operands others with
        | isTrue equals => isTrue (by rw [equal, equals])
        | isFalse differ => isFalse (by simp [differ])
      else isFalse (by simp [equal])

def decideEqAll : (first second : List Tree) → Decidable (first = second)
  | [], [] => isTrue rfl
  | [], _ :: _ => isFalse (by simp)
  | _ :: _, [] => isFalse (by simp)
  | tree :: trees, other :: others =>
      match decideEq tree other with
      | isFalse differ => isFalse (by simp [differ])
      | isTrue equal =>
          match decideEqAll trees others with
          | isTrue equals => isTrue (by rw [equal, equals])
          | isFalse differ => isFalse (by simp [differ])

end

instance : DecidableEq Tree := decideEq

end Tree

end Descent.Script
