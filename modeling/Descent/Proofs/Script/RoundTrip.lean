import Descent.Proofs.Script.Shape
import Descent.Script.Printer

/-!
Printing trees and parsing them back. The canonical tokens of a shaped tree are tokens of the
lexicon, and the grammar derives the tree from them: an operand stands for itself or in parentheses,
and what a statement ends with depends on its operator. Main statement: every text that writes the
canonical tokens of a script is parsed to this script.
-/

namespace Descent.Script

namespace Tree

/-- The tokens of trees with commas between them. -/
def rowTokens (trees : List Tree) : List Token :=
  List.intercalate [.sign ','] (trees.map tokens)

theorem tokens_all_eq (trees : List Tree) :
    tokensAll trees = trees.map fun tree => (tree, tree.tokens) := by
  induction trees with
  | nil => rfl
  | cons tree trees ih => rw [tokensAll, ih, List.map_cons]

theorem row_tokens_eq (trees : List Tree) :
    List.intercalate [.sign ','] ((tokensAll trees).map Prod.snd) = rowTokens trees := by
  rw [tokens_all_eq, List.map_map]
  rfl

theorem row_tokens_cons (tree next : Tree) (trees : List Tree) :
    rowTokens (tree :: next :: trees) = tree.tokens ++ .sign ',' :: rowTokens (next :: trees) := by
  simp [rowTokens, List.intercalate_cons_cons]

theorem program_tokens_cons (tree : Tree) (trees : List Tree) :
    programTokens (tree :: trees) =
      statementTokens (tree, tree.tokens) ++ programTokens trees := rfl

theorem tokens_call (text : String) (arguments : List Tree) :
    (node "call" (name text :: arguments)).tokens =
      .word text :: .sign '(' :: rowTokens arguments ++ [.sign ')'] := by
  rw [← row_tokens_eq]
  rfl

theorem tokens_one_branch (condition consequence : Tree) :
    (node "if" [condition, consequence]).tokens =
      .word "if" :: .sign '(' :: condition.tokens ++ .sign ')' :: consequence.tokens := by
  simp [tokens, tokensAll, layout, enclose]

theorem tokens_two_branches (condition consequence alternative : Tree) :
    (node "if" [condition, consequence, alternative]).tokens =
      .word "if" :: .sign '(' :: condition.tokens ++ .sign ')' :: consequence.tokens ++
        .word "else" :: alternative.tokens := by
  simp [tokens, tokensAll, layout, enclose]

theorem tokens_block (statements : List Tree) :
    (node "block" statements).tokens =
      .sign '\x7b' :: programTokens statements ++ [.sign '\x7d'] := rfl

theorem tokens_assignment (text : String) (value : Tree) :
    (node "=" [name text, value]).tokens = .word text :: .sign '=' :: value.tokens := rfl

theorem tokens_definition (text : String) (parameters : List Tree) (body : Tree) :
    (node "fn" [name text, node "params" parameters, body]).tokens =
      .word "fn" :: .word text :: .sign '(' :: rowTokens parameters ++
        .sign ')' :: body.tokens := by
  rw [← row_tokens_eq]
  simp [tokens, tokensAll, layout, enclose, name]

theorem arithmetic_sign {operator : String} (arithmetic : operator ∈ ["+", "-", "*", "/"]) :
    ∃ char, operator = char.toString ∧ (char ∈ ['*', '/'] ∨ char ∈ ['+', '-']) := by
  simp only [List.mem_cons, List.not_mem_nil, or_false] at arithmetic
  rcases arithmetic with rfl | rfl | rfl | rfl
  · exact ⟨'+', rfl, by decide⟩
  · exact ⟨'-', rfl, by decide⟩
  · exact ⟨'*', rfl, by decide⟩
  · exact ⟨'/', rfl, by decide⟩

theorem level_sign {char : Char} (level : char ∈ ['*', '/'] ∨ char ∈ ['+', '-']) :
    char ∈ lexicon.signs := by
  simp only [List.mem_cons, List.not_mem_nil, or_false] at level
  rcases level with (rfl | rfl) | (rfl | rfl) <;> decide

theorem tokens_binary {char : Char} (level : char ∈ ['*', '/'] ∨ char ∈ ['+', '-'])
    (lhs rhs : Tree) :
    (node char.toString [lhs, rhs]).isCompound = true ∧
      (node char.toString [lhs, rhs]).isClosed = false ∧
      (node char.toString [lhs, rhs]).tokens =
        operandTokens (lhs, lhs.tokens) ++ .sign char :: operandTokens (rhs, rhs.tokens) := by
  simp only [List.mem_cons, List.not_mem_nil, or_false] at level
  rcases level with (rfl | rfl) | (rfl | rfl) <;>
    exact ⟨rfl, rfl, by simp [tokens, tokensAll, layout]⟩

end Tree

open Descent.Script.Tree

/-- How the grammar derives an expression from its canonical tokens. -/
inductive Printed (tree : Tree) : Prop where
  | factor (simple : tree.isCompound = false) (unclosed : tree.isClosed = false)
      (phrase : Rule.factor.Language tree.tokens tree)
  | sum (compound : tree.isCompound = true) (unclosed : tree.isClosed = false)
      (phrase : Rule.sum.Language tree.tokens tree)
  | conditional (compound : tree.isCompound = true) (closed : tree.isClosed = true)
      (phrase : Rule.conditional.Language tree.tokens tree)

namespace Printed

variable {tree : Tree}

theorem expression (printed : Printed tree) : Rule.expression.Language tree.tokens tree := by
  cases printed with
  | factor simple unclosed phrase => exact .expressionSum (.lastProduct (.lastFactor phrase))
  | sum compound unclosed phrase => exact .expressionSum phrase
  | conditional compound closed phrase => exact .expressionConditional phrase

theorem operand (printed : Printed tree) :
    Rule.factor.Language (operandTokens (tree, tree.tokens)) tree := by
  by_cases compound : tree.isCompound = true
  · rw [operandTokens, if_pos compound]
    exact .parentheses printed.expression
  · rw [operandTokens, if_neg compound]
    cases printed with
    | factor simple unclosed phrase => exact phrase
    | sum compounded unclosed phrase => contradiction
    | conditional compounded closed phrase => contradiction

theorem statement (printed : Printed tree) :
    Rule.statement.Language (statementTokens (tree, tree.tokens)) tree := by
  cases printed with
  | factor simple unclosed phrase =>
      rw [statementTokens, if_neg (by simp [unclosed])]
      exact .statementSum (.lastProduct (.lastFactor phrase))
  | sum compound unclosed phrase =>
      rw [statementTokens, if_neg (by simp [unclosed])]
      exact .statementSum phrase
  | conditional compound closed phrase =>
      rw [statementTokens, if_pos closed]
      exact .statementConditional phrase

theorem binary {lhs rhs : Tree} {operator : String} (arithmetic : operator ∈ ["+", "-", "*", "/"])
    (left : Printed lhs) (right : Printed rhs) : Printed (.node operator [lhs, rhs]) := by
  obtain ⟨char, rfl, level⟩ := arithmetic_sign arithmetic
  obtain ⟨compound, unclosed, same⟩ := tokens_binary level lhs rhs
  refine .sum compound unclosed ?_
  rw [same]
  rcases level with multiplicative | additive
  · exact .lastProduct (.nextFactor left.operand multiplicative (.lastFactor right.operand))
  · exact .nextProduct (.lastFactor left.operand) additive
      (.lastProduct (.lastFactor right.operand))

end Printed

/-- Rows of trees with commas between them, described by how one is made and how one grows. -/
theorem row_derives {rows : List Token → List Tree → Prop} {trees : List Tree}
    (nonempty : trees ≠ [])
    (single : ∀ tree ∈ trees, rows tree.tokens [tree])
    (longer : ∀ tree ∈ trees, ∀ following others, rows following others →
      rows (tree.tokens ++ .sign ',' :: following) (tree :: others)) :
    rows (rowTokens trees) trees := by
  induction trees with
  | nil => contradiction
  | cons tree trees ih =>
      obtain ⟨alone, singles⟩ := List.forall_mem_cons.mp single
      obtain ⟨grows, longers⟩ := List.forall_mem_cons.mp longer
      cases trees with
      | nil => simpa [rowTokens] using alone
      | cons next trees =>
          rw [row_tokens_cons]
          exact grows _ _ (ih (List.cons_ne_nil _ _) singles longers)

theorem arguments_derive {arguments : List Tree}
    (printed : ∀ argument ∈ arguments, Printed argument) :
    Derives .arguments (rowTokens arguments) arguments := by
  by_cases empty : arguments = []
  · subst empty
    exact .noArgument
  · refine .someArguments (row_derives empty ?_ ?_)
    · intro argument member
      exact .lastExpression (printed argument member).expression
    · intro argument member following others row
      exact .nextExpression (printed argument member).expression row

theorem parameters_derive {names : List String} (proper : ∀ name ∈ names, IsVariable name) :
    Derives .parameters (rowTokens (names.map name)) (names.map name) := by
  by_cases empty : names.map name = []
  · rw [empty]
    exact .noParameter
  · refine .someParameters (row_derives empty ?_ ?_)
    · intro tree member
      obtain ⟨text, listed, rfl⟩ := List.mem_map.mp member
      exact .lastName (proper text listed).1
    · intro tree member following others row
      obtain ⟨text, listed, rfl⟩ := List.mem_map.mp member
      exact .nextName (proper text listed).1 row

theorem statements_derive {trees : List Tree}
    (phrases : ∀ tree ∈ trees, Rule.statement.Language (statementTokens (tree, tree.tokens)) tree) :
    Derives .statements (programTokens trees) trees := by
  induction trees with
  | nil => exact .noStatement
  | cons tree trees ih =>
      obtain ⟨first, others⟩ := List.forall_mem_cons.mp phrases
      rw [program_tokens_cons]
      exact .nextStatement first (ih others)

/-- How the canonical tokens of a tree derive it where its kind belongs. -/
def Kind.Prints : Kind → Tree → Prop
  | .expression, tree => Printed tree
  | .block, tree => Rule.block.Language tree.tokens tree
  | .statement, tree => Rule.statement.Language (statementTokens (tree, tree.tokens)) tree

theorem prints_of_shaped {kind : Kind} {tree : Tree} (shaped : Shaped kind tree) :
    kind.Prints tree := by
  induction shaped with
  | number bounded => exact .factor rfl rfl (.number _)
  | name proper => exact .factor rfl rfl (.name proper.1)
  | binary arithmetic left right ihLeft ihRight => exact .binary arithmetic ihLeft ihRight
  | call proper expressions ih =>
      refine .factor rfl rfl ?_
      rw [tokens_call]
      exact .factorCall (.call proper.1 (arguments_derive ih))
  | oneBranch test first ihTest ihFirst =>
      refine .conditional rfl rfl ?_
      rw [tokens_one_branch]
      exact .oneBranch (Printed.expression ihTest) ihFirst
  | twoBlocks test first second ihTest ihFirst ihSecond =>
      refine .conditional rfl rfl ?_
      rw [tokens_two_branches]
      exact .twoBranches (Printed.expression ihTest) ihFirst (by decide) ihSecond
  | elseIf test first second ihTest ihFirst ihSecond =>
      refine .conditional rfl rfl ?_
      rw [tokens_two_branches]
      -- what follows an `else` is no expression in general, but a conditional without parentheses
      cases ihSecond with
      | factor simple unclosed phrase => contradiction
      | sum compound unclosed phrase => contradiction
      | conditional compound closed phrase =>
          exact .twoBranches (Printed.expression ihTest) ihFirst (by decide) phrase
  | block inner ih =>
      have phrase := Derives.block (statements_derive ih)
      rw [← tokens_block] at phrase
      exact phrase
  | expression inner ih => exact Printed.statement ih
  | assignment proper inner ih =>
      have phrase := Derives.assignment proper.1 (Printed.expression ih)
      rw [← tokens_assignment] at phrase
      exact .statementAssignment phrase
  | definition proper listed inner ih =>
      have phrase := Derives.definition proper.1 (parameters_derive listed) ih
      rw [← tokens_definition] at phrase
      exact .statementDefinition phrase

theorem lexicon_plain : lexicon.Plain := Lexicon.plain_of_all rfl

theorem keyword_held {text : String} (keyword : text ∈ keywords) :
    lexicon.Holds (.word text) := by
  simp only [keywords, List.mem_cons, List.not_mem_nil, or_false] at keyword
  rcases keyword with rfl | rfl | rfl <;>
    exact ⟨rfl, _, _, rfl, rfl, List.all_eq_true.mp rfl⟩

theorem sign_held {char : Char} (known : char ∈ lexicon.signs) : lexicon.Holds (.sign char) := known

theorem variable_held {text : String} (proper : IsVariable text) : lexicon.Holds (.word text) :=
  ⟨rfl, proper.2⟩

/-- All tokens are tokens of the lexicon. -/
def Spelled (tokens : List Token) : Prop := ∀ token ∈ tokens, lexicon.Holds token

namespace Spelled

variable {tokens : List Token} {trees : List Tree}

theorem cons {token : Token} (held : lexicon.Holds token) (spelled : Spelled tokens) :
    Spelled (token :: tokens) := List.forall_mem_cons.mpr ⟨held, spelled⟩

theorem append {following : List Token} (front : Spelled tokens) (back : Spelled following) :
    Spelled (tokens ++ following) := List.forall_mem_append.mpr ⟨front, back⟩

theorem single {token : Token} (held : lexicon.Holds token) : Spelled [token] :=
  List.forall_mem_singleton.mpr held

theorem sign (char : Char) (known : char ∈ lexicon.signs) (spelled : Spelled tokens) :
    Spelled (.sign char :: tokens) := cons (sign_held known) spelled

theorem enclose (inner : Spelled tokens) : Spelled (enclose tokens) :=
  append (sign '(' (by decide) inner) (single (sign_held (by decide)))

theorem bracketed {following : List Token} (inner : Spelled tokens) (back : Spelled following) :
    Spelled (.sign '(' :: tokens ++ .sign ')' :: following) :=
  append (sign '(' (by decide) inner) (sign ')' (by decide) back)

theorem operand {tree : Tree} (spelled : Spelled tree.tokens) :
    Spelled (operandTokens (tree, tree.tokens)) := by
  rw [operandTokens]
  split
  · exact enclose spelled
  · exact spelled

theorem statement {tree : Tree} (spelled : Spelled tree.tokens) :
    Spelled (statementTokens (tree, tree.tokens)) := by
  rw [statementTokens]
  split
  · exact spelled
  · exact append spelled (single (sign_held (by decide)))

theorem row (spelled : ∀ tree ∈ trees, Spelled tree.tokens) : Spelled (rowTokens trees) := by
  by_cases empty : trees = []
  · subst empty
    exact List.forall_mem_nil _
  · have grown := @row_derives (fun tokens _ => Spelled tokens) trees empty spelled
    apply grown
    intro tree member following _ more
    exact append (spelled tree member) (sign ',' (by decide) more)

theorem names {names : List String} (proper : ∀ name ∈ names, IsVariable name) :
    Spelled (rowTokens (names.map name)) := by
  apply row
  intro tree member
  obtain ⟨text, listed, rfl⟩ := List.mem_map.mp member
  exact single (variable_held (proper text listed))

theorem program (spelled : ∀ tree ∈ trees, Spelled tree.tokens) :
    Spelled (programTokens trees) := by
  induction trees with
  | nil => exact List.forall_mem_nil _
  | cons tree trees ih =>
      obtain ⟨first, others⟩ := List.forall_mem_cons.mp spelled
      rw [program_tokens_cons]
      exact append (statement first) (ih others)

end Spelled

theorem spelled_of_shaped {kind : Kind} {tree : Tree} (shaped : Shaped kind tree) :
    Spelled tree.tokens := by
  induction shaped with
  | number bounded => exact .single (decide_eq_true bounded)
  | name proper => exact .single (variable_held proper)
  | binary arithmetic left right ihLeft ihRight =>
      obtain ⟨char, rfl, level⟩ := arithmetic_sign arithmetic
      rw [(tokens_binary level _ _).2.2]
      exact ihLeft.operand.append (.sign char (level_sign level) ihRight.operand)
  | call proper expressions ih =>
      rw [tokens_call]
      exact .cons (variable_held proper) (.enclose (.row ih))
  | oneBranch test first ihTest ihFirst =>
      rw [tokens_one_branch]
      exact .cons (keyword_held (by decide)) (.bracketed ihTest ihFirst)
  | twoBlocks test first second ihTest ihFirst ihSecond =>
      rw [tokens_two_branches]
      exact .append (.cons (keyword_held (by decide)) (.bracketed ihTest ihFirst))
        (.cons (keyword_held (by decide)) ihSecond)
  | elseIf test first second ihTest ihFirst ihSecond =>
      rw [tokens_two_branches]
      exact .append (.cons (keyword_held (by decide)) (.bracketed ihTest ihFirst))
        (.cons (keyword_held (by decide)) ihSecond)
  | block inner ih =>
      rw [tokens_block]
      exact .append (.sign '\x7b' (by decide) (.program ih)) (.single (sign_held (by decide)))
  | expression inner ih => exact ih
  | assignment proper inner ih =>
      rw [tokens_assignment]
      exact .cons (variable_held proper) (.sign '=' (by decide) ih)
  | definition proper listed inner ih =>
      rw [tokens_definition]
      exact .cons (keyword_held (by decide))
        (.cons (variable_held proper) (.bracketed (.names listed) ih))

theorem printed_program_is_parsed (trees : List Tree)
    (shaped : ∀ tree ∈ trees, Shaped .statement tree) (text : List Char)
    (written : Token.Written (programTokens trees) text) : parseProgram text = .ok trees := by
  have spelled : Spelled (programTokens trees) :=
    .program fun tree member => spelled_of_shaped (shaped tree member)
  have phrases : Derives .statements (programTokens trees) trees :=
    statements_derive fun tree member => prints_of_shaped (shaped tree member)
  exact parse_program_of_derives (written.reads lexicon_plain spelled) phrases

/-- The tree of `if (a) {} else if (b) { (1 + 2) * f(3); }`. -/
def nestedConditional : Tree :=
  .node "if" [.name "a", .node "block" [],
    .node "if" [.name "b", .node "block"
      [.node "*" [.node "+" [.number 1, .number 2], .node "call" [.name "f", .number 3]]]]]

theorem nested_conditional_shaped : Shaped .statement nestedConditional := by
  have letters : ∀ char ∈ ['a', 'b', 'f'], IsVariable (String.singleton char) := by
    simp only [List.mem_cons, List.not_mem_nil, or_false]
    rintro char (rfl | rfl | rfl) <;>
      exact ⟨by decide, _, [], rfl, rfl, List.forall_mem_nil _⟩
  have value {digit : Nat} (small : digit ≤ 3) : Shaped .expression (.number digit) :=
    .number (small.trans (by decide))
  have sum : Shaped .expression (.node "+" [.number 1, .number 2]) :=
    .binary (by decide) (value (by decide)) (value (by decide))
  have call : Shaped .expression (.node "call" [.name "f", .number 3]) :=
    .call (letters 'f' (by decide)) (List.forall_mem_singleton.mpr (value (by decide)))
  have product := Shaped.expression (.binary (by decide : "*" ∈ _) sum call)
  have inner := Shaped.oneBranch (.name (letters 'b' (by decide)))
    (.block (List.forall_mem_singleton.mpr product))
  exact .expression
    (.elseIf (.name (letters 'a' (by decide))) (.block (List.forall_mem_nil _)) inner)

theorem spaced_conditional_is_parsed :
    Token.Written (programTokens [nestedConditional])
        " if ( a ) \x7b \x7d else if ( b ) \x7b ( 1 + 2 ) * f ( 3 ) ; \x7d".toList ∧
      parseProgram " if ( a ) \x7b \x7d else if ( b ) \x7b ( 1 + 2 ) * f ( 3 ) ; \x7d".toList =
        .ok [nestedConditional] := by
  have written := Token.Written.apart (programTokens [nestedConditional])
  exact ⟨written, printed_program_is_parsed _
    (List.forall_mem_singleton.mpr nested_conditional_shaped) _ written⟩

end Descent.Script
