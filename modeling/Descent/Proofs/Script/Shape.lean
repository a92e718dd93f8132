import Descent.Proofs.Script.Recognition
import Descent.Proofs.Writing
import Descent.Script.Shape

/-!
The shapes of the trees that scripts and expressions parse to. A derivation makes trees of the shape
that belongs to its phrase, and its words are tokens of the lexicon, so they are identifiers. Main
statement: all statements and expressions have the shapes of their kinds, and at every node below
stands a bounded number, a variable, or one of the ten operators.
-/

namespace Descent.Script

open Descent.Parser

theorem is_variable {text : String} (proper : IsName text) (held : lexicon.Holds (.word text)) :
    IsVariable text := ⟨proper, held.2⟩

/-- The trees that a rule makes. -/
def Rule.Shapes : Rule → Tree → Prop
  | .call, tree | .factor, tree | .product, tree | .sum, tree | .expression, tree =>
      Shaped .expression tree
  | .block, tree => Shaped .block tree
  | .conditional, tree => Shaped .expression tree ∧ ∃ operands, tree = .node "if" operands
  | .assignment, tree | .definition, tree | .statement, tree => Shaped .statement tree

/-- The trees that a phrase stands for. -/
def Phrase.Shapes : Phrase → List Tree → Prop
  | .rule entered, trees => ∃ tree, trees = [tree] ∧ entered.Shapes tree
  | .names, trees | .parameters, trees =>
      ∃ names : List String, trees = names.map .name ∧ ∀ name ∈ names, IsVariable name
  | .expressions, trees | .arguments, trees => ∀ tree ∈ trees, Shaped .expression tree
  | .statements, trees => ∀ tree ∈ trees, Shaped .statement tree

theorem operator_known {operator : Char} (known : operator ∈ ['+', '-', '*', '/']) :
    operator.toString ∈ ["+", "-", "*", "/"] := by
  simp only [List.mem_cons, List.not_mem_nil, or_false] at known
  rcases known with rfl | rfl | rfl | rfl <;> decide

/-- The operands of either level are expressions, and so is what an operator makes of them. -/
theorem chain_shapes {tokens following : List Token} {lhs rhs : Tree} {operator : Char}
    (known : operator ∈ ['+', '-', '*', '/'])
    (held : ∀ token ∈ tokens ++ .sign operator :: following, lexicon.Holds token)
    (first : (∀ token ∈ tokens, lexicon.Holds token) → (Phrase.rule .expression).Shapes [lhs])
    (others : (∀ token ∈ following, lexicon.Holds token) →
      (Phrase.rule .expression).Shapes [rhs]) :
    (Phrase.rule .expression).Shapes [.node operator.toString [lhs, rhs]] := by
  obtain ⟨front, back⟩ := List.forall_mem_append.mp held
  obtain ⟨-, beyond⟩ := List.forall_mem_cons.mp back
  obtain ⟨_, ⟨⟩, left⟩ := first front
  obtain ⟨_, ⟨⟩, right⟩ := others beyond
  exact ⟨_, rfl, .binary (operator_known known) left right⟩

theorem shapes_of_derives {phrase : Phrase} {tokens : List Token} {trees : List Tree}
    (derives : Derives phrase tokens trees) (held : ∀ token ∈ tokens, lexicon.Holds token) :
    phrase.Shapes trees := by
  induction derives with
  | name proper => exact ⟨_, rfl, .name (is_variable proper (held _ List.mem_cons_self))⟩
  | number value =>
      have admitted : lexicon.Holds (.numeral value) := held _ List.mem_cons_self
      exact ⟨_, rfl, .number (of_decide_eq_true admitted)⟩
  | parentheses inner ih =>
      simp only [List.forall_mem_append, List.forall_mem_cons] at held
      obtain ⟨⟨-, middle⟩, -⟩ := held
      obtain ⟨_, ⟨⟩, shaped⟩ := ih middle
      exact ⟨_, rfl, shaped⟩
  | factorCall call ih =>
      obtain ⟨_, ⟨⟩, shaped⟩ := ih held
      exact ⟨_, rfl, shaped⟩
  | call proper inner ih =>
      simp only [List.forall_mem_append, List.forall_mem_cons] at held
      obtain ⟨⟨word, -, middle⟩, -⟩ := held
      have arguments : ∀ tree ∈ _, Shaped .expression tree := ih middle
      exact ⟨_, rfl, .call (is_variable proper word) arguments⟩
  | noArgument =>
      intro tree member
      contradiction
  | someArguments inner ih =>
      have expressions : ∀ tree ∈ _, Shaped .expression tree := ih held
      exact expressions
  | lastExpression last ih =>
      obtain ⟨_, ⟨⟩, shaped⟩ := ih held
      exact List.forall_mem_singleton.mpr shaped
  | nextExpression first others ih ihOthers =>
      simp only [List.forall_mem_append, List.forall_mem_cons] at held
      obtain ⟨front, -, back⟩ := held
      obtain ⟨_, ⟨⟩, shaped⟩ := ih front
      exact List.forall_mem_cons.mpr ⟨shaped, ihOthers back⟩
  | lastFactor operand ih | lastProduct operand ih =>
      obtain ⟨_, ⟨⟩, shaped⟩ := ih held
      exact ⟨_, rfl, shaped⟩
  | nextFactor operand level chain ih ihChain =>
      exact chain_shapes (List.mem_append_right ['+', '-'] level) held ih ihChain
  | nextProduct operand level chain ih ihChain =>
      exact chain_shapes (List.mem_append_left ['*', '/'] level) held ih ihChain
  | block inner ih =>
      simp only [List.forall_mem_append, List.forall_mem_cons] at held
      obtain ⟨⟨-, middle⟩, -⟩ := held
      have statements : ∀ tree ∈ _, Shaped .statement tree := ih middle
      exact ⟨_, rfl, .block statements⟩
  | oneBranch tested first ih ihFirst =>
      simp only [List.forall_mem_append, List.forall_mem_cons] at held
      obtain ⟨⟨-, -, condition⟩, -, consequence⟩ := held
      obtain ⟨_, ⟨⟩, test⟩ := ih condition
      obtain ⟨_, ⟨⟩, body⟩ := ihFirst consequence
      exact ⟨_, rfl, .oneBranch test body, _, rfl⟩
  | twoBranches tested first kind second ih ihFirst ihSecond =>
      simp only [List.forall_mem_append, List.forall_mem_cons] at held
      obtain ⟨⟨⟨-, -, condition⟩, -, consequence⟩, -, alternative⟩ := held
      obtain ⟨_, ⟨⟩, test⟩ := ih condition
      obtain ⟨_, ⟨⟩, body⟩ := ihFirst consequence
      obtain ⟨_, ⟨⟩, other⟩ := ihSecond alternative
      simp only [List.mem_cons, List.not_mem_nil, or_false] at kind
      rcases kind with rfl | rfl
      · obtain ⟨shaped, operands, rfl⟩ := other
        exact ⟨_, rfl, .elseIf test body shaped, _, rfl⟩
      · exact ⟨_, rfl, .twoBlocks test body other, _, rfl⟩
  | expressionConditional conditional ih =>
      obtain ⟨_, ⟨⟩, shaped, -⟩ := ih held
      exact ⟨_, rfl, shaped⟩
  | expressionSum sum ih =>
      obtain ⟨_, ⟨⟩, shaped⟩ := ih held
      exact ⟨_, rfl, shaped⟩
  | assignment proper value ih =>
      simp only [List.forall_mem_cons] at held
      obtain ⟨word, -, back⟩ := held
      obtain ⟨_, ⟨⟩, shaped⟩ := ih back
      exact ⟨_, rfl, .assignment (is_variable proper word) shaped⟩
  | noParameter => exact ⟨[], rfl, List.forall_mem_nil _⟩
  | someParameters inner ih =>
      obtain ⟨names, rfl, proper⟩ := ih held
      exact ⟨names, rfl, proper⟩
  | lastName proper =>
      have named := is_variable proper (held _ List.mem_cons_self)
      exact ⟨[_], rfl, List.forall_mem_singleton.mpr named⟩
  | nextName proper others ih =>
      simp only [List.forall_mem_cons] at held
      obtain ⟨word, -, back⟩ := held
      obtain ⟨names, rfl, more⟩ := ih back
      exact ⟨_ :: names, rfl, List.forall_mem_cons.mpr ⟨is_variable proper word, more⟩⟩
  | definition proper listed inner ih ihInner =>
      simp only [List.forall_mem_append, List.forall_mem_cons] at held
      obtain ⟨⟨-, word, -, parameters⟩, -, back⟩ := held
      obtain ⟨names, rfl, more⟩ := ih parameters
      obtain ⟨_, ⟨⟩, body⟩ := ihInner back
      exact ⟨_, rfl, .definition (is_variable proper word) more body⟩
  | statementDefinition inner ih =>
      obtain ⟨_, ⟨⟩, shaped⟩ := ih held
      exact ⟨_, rfl, shaped⟩
  | statementAssignment inner ih =>
      obtain ⟨front, -⟩ := List.forall_mem_append.mp held
      obtain ⟨_, ⟨⟩, shaped⟩ := ih front
      exact ⟨_, rfl, shaped⟩
  | statementConditional inner ih =>
      obtain ⟨_, ⟨⟩, shaped, -⟩ := ih held
      exact ⟨_, rfl, .expression shaped⟩
  | statementClosed inner ih =>
      obtain ⟨front, -⟩ := List.forall_mem_append.mp held
      obtain ⟨_, ⟨⟩, shaped, -⟩ := ih front
      exact ⟨_, rfl, .expression shaped⟩
  | statementSum inner ih =>
      obtain ⟨front, -⟩ := List.forall_mem_append.mp held
      obtain ⟨_, ⟨⟩, shaped⟩ := ih front
      exact ⟨_, rfl, .expression shaped⟩
  | noStatement =>
      intro tree member
      contradiction
  | nextStatement first others ih ihOthers =>
      obtain ⟨front, back⟩ := List.forall_mem_append.mp held
      obtain ⟨_, ⟨⟩, shaped⟩ := ih front
      exact List.forall_mem_cons.mpr ⟨shaped, ihOthers back⟩

/-- The operators that the grammar makes. -/
def operators : List String := ["+", "-", "*", "/", "=", "call", "if", "block", "fn", "params"]

namespace Tree

/-- At the root of the tree stands a bounded number, a variable, or one of the operators. -/
def Known : Tree → Prop
  | leaf (.number value) => value ≤ (IntegerType.unsigned 64).greatest
  | leaf (.name text) => IsVariable text
  | node operator _ => operator ∈ operators

/-- The same holds of the tree and of all trees below it. -/
def KnownThroughout (tree : Tree) : Prop := ∀ below ∈ tree.preorder, below.Known

/-- Question marks stand for leaves, and only for them. -/
theorem operator_of_known {tree : Tree} (known : tree.Known) :
    tree.operator = "?" ↔ tree.isLeaf = true := by
  cases tree with
  | leaf scalar => simp [operator, isLeaf]
  | node name operands =>
      have differs : name ≠ "?" := by
        rintro rfl
        exact absurd known (by decide : "?" ∉ operators)
      simp [operator, isLeaf, differs]

theorem mem_preorders {below : Tree} {trees : List Tree} :
    below ∈ preorders trees ↔ ∃ tree ∈ trees, below ∈ tree.preorder := by
  induction trees with
  | nil => simp [preorders]
  | cons tree trees ih => simp [preorders, ih]

theorem known_leaf {scalar : Scalar} (known : (leaf scalar).Known) :
    (leaf scalar).KnownThroughout := by
  intro below member
  rw [preorder, List.mem_singleton] at member
  rwa [member]

theorem known_name {text : String} (proper : IsVariable text) :
    (name text).KnownThroughout := known_leaf proper

theorem known_node {operator : String} {operands : List Tree} (known : operator ∈ operators)
    (inner : ∀ tree ∈ operands, tree.KnownThroughout) :
    (node operator operands).KnownThroughout := by
  intro below member
  rw [preorder, List.mem_cons, mem_preorders] at member
  rcases member with rfl | ⟨tree, operand, deeper⟩
  · exact known
  · exact inner tree operand below deeper

theorem known_names {names : List String} (proper : ∀ name ∈ names, IsVariable name) :
    ∀ tree ∈ names.map Tree.name, tree.KnownThroughout := by
  intro tree member
  obtain ⟨name, listed, rfl⟩ := List.mem_map.mp member
  exact known_name (proper name listed)

end Tree

theorem known_of_shaped {kind : Kind} {tree : Tree} (shaped : Shaped kind tree) :
    tree.KnownThroughout := by
  induction shaped with
  | number bounded => exact Tree.known_leaf bounded
  | name proper => exact Tree.known_name proper
  | binary arithmetic left right ihLeft ihRight =>
      have known := List.mem_append_left ["=", "call", "if", "block", "fn", "params"] arithmetic
      exact Tree.known_node known (by simp [ihLeft, ihRight])
  | call proper expressions ih =>
      exact Tree.known_node (by decide) (List.forall_mem_cons.mpr ⟨Tree.known_name proper, ih⟩)
  | oneBranch test first ihTest ihFirst =>
      exact Tree.known_node (by decide) (by simp [ihTest, ihFirst])
  | twoBlocks test first second ihTest ihFirst ihSecond =>
      exact Tree.known_node (by decide) (by simp [ihTest, ihFirst, ihSecond])
  | elseIf test first second ihTest ihFirst ihSecond =>
      exact Tree.known_node (by decide) (by simp [ihTest, ihFirst, ihSecond])
  | block inner ih => exact Tree.known_node (by decide) ih
  | expression inner ih => exact ih
  | assignment proper inner ih =>
      exact Tree.known_node (by decide) (by simp [Tree.known_name proper, ih])
  | definition proper listed inner ih =>
      have parameters : (Tree.node "params" _).KnownThroughout :=
        Tree.known_node (by decide) (Tree.known_names listed)
      exact Tree.known_node (by decide) (by simp [Tree.known_name proper, parameters, ih])

theorem parsed_trees_are_shaped (source : List Char) :
    (∀ trees, parseProgram source = .ok trees → ∀ tree ∈ trees, Shaped .statement tree ∧
      ∀ below ∈ tree.preorder, below.Known ∧ (below.operator = "?" ↔ below.isLeaf = true)) ∧
    ∀ tree, parseExpression source = .ok tree → Shaped .expression tree ∧
      ∀ below ∈ tree.preorder, below.Known ∧ (below.operator = "?" ↔ below.isLeaf = true) := by
  have below {kind : Kind} {tree : Tree} (shaped : Shaped kind tree) :
      ∀ below ∈ tree.preorder,
        below.Known ∧ (below.operator = "?" ↔ below.isLeaf = true) := by
    intro below member
    have known := known_of_shaped shaped below member
    exact ⟨known, Tree.operator_of_known known⟩
  constructor
  · intro trees parsed tree member
    obtain ⟨tokens, reads, phrases⟩ := derives_of_parse_program parsed
    have statements : ∀ tree ∈ trees, Shaped .statement tree :=
      shapes_of_derives phrases reads.holds
    exact ⟨statements tree member, below (statements tree member)⟩
  · intro tree parsed
    obtain ⟨tokens, reads, phrase⟩ := derives_of_parse_expression parsed
    obtain ⟨_, ⟨⟩, shaped⟩ := shapes_of_derives phrase reads.holds
    exact ⟨shaped, below shaped⟩

theorem assigned_call_is_shaped :
    parseProgram "y = f(1);".toList =
        .ok [.node "=" [.name "y", .node "call" [.name "f", .number 1]]] ∧
      Shaped .statement (.node "=" [.name "y", .node "call" [.name "f", .number 1]]) ∧
      parseExpression " x ".toList = .ok (.name "x") ∧ Shaped .expression (.name "x") := by
  have run : advance (parser .statement) "y = f(1);".toList =
      ([.node "=" [.name "y", .node "call" [.name "f", .number 1]]], []) := by
    decide +kernel
  have program : parseProgram "y = f(1);".toList =
      .ok [.node "=" [.name "y", .node "call" [.name "f", .number 1]]] := by
    rw [parse_program_eq, run]
    rfl
  have expression : parseExpression " x ".toList = .ok (.name "x") :=
    complete_ok.mpr ⟨[], by decide +kernel, rfl⟩
  exact ⟨program, ((parsed_trees_are_shaped _).1 _ program _ List.mem_cons_self).1, expression,
    ((parsed_trees_are_shaped _).2 _ expression).1⟩

end Descent.Script
