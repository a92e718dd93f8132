import Descent.Proofs.Script.Recognition
import Descent.Proofs.Writing

/-!
What a script is written with and what its trees hold. Reading a token takes one lexeme off the source,
so the tokens account for all numerals, words and operators there, and a derivation moves each of them
into the trees, in the same order. Main statement: the leaves of a script or an expression are its
numerals and names in the order of the source, and it has one binary node for every operator.
-/

namespace Descent.Script

open Descent.Parser Text

/-- The number or the name that a lexeme writes; keywords and all other lexemes write none. -/
def writtenScalar? : List Char → Option Scalar
  | [] => none
  | first :: others =>
      if first.isLower then
        if String.ofList (first :: others) ∈ keywords then none
        else some (.name (String.ofList (first :: others)))
      else if first.isDigit then some (.number (decimalValue (first :: others)))
      else none

def tokenScalar? : Token → Option Scalar
  | .word text => if text ∈ keywords then none else some (.name text)
  | .numeral value => some (.number value)
  | .sign _ => none

/-- The node applies the operator to two operands. -/
def Tree.isBinary (operator : String) : Tree → Bool
  | node name [_, _] => name == operator
  | _ => false

/-! One token accounts for one lexeme, and a row of tokens for all lexemes up to its end. -/

theorem written_trim (input : List Char) :
    (lexemes (trim input)).filterMap writtenScalar? =
      (lexemes input).filterMap writtenScalar? := by
  induction input with
  | nil => rfl
  | cons char rest ih =>
      cases space : isSpace char with
      | false => rw [trim_other space]
      | true =>
          obtain ⟨lower, digit⟩ := not_word_char (space_not_word_char space)
          have silent : writtenScalar? [char] = none := by simp [writtenScalar?, lower, digit]
          rw [trim_space space, ih, lexemes_cons, cut_single lower digit,
            List.filterMap_cons_none silent]

theorem filter_map_cons {α β : Type} (f : α → Option β) (first : α) (others : List α) :
    (first :: others).filterMap f = (f first).toList ++ others.filterMap f := by
  rw [List.filterMap_cons]
  cases f first with
  | none => rfl
  | some value => rfl

theorem written_lexeme {input middle : List Char} {token : Token}
    (first : lexicon.next? input = some (token, middle)) :
    writtenScalar? (cut (trim input)).1 = tokenScalar? token := by
  cases token with
  | word text =>
      obtain ⟨char, rest, start, lower, rfl, -⟩ := Lexicon.next_word first
      rw [start, cut_lower lower]
      simp [writtenScalar?, tokenScalar?, lower]
  | numeral value =>
      obtain ⟨char, rest, start, digit, -, rfl, -⟩ := Lexicon.next_numeral first
      have lower := digit_not_lower digit
      rw [start, cut_digit lower digit]
      simp [writtenScalar?, tokenScalar?, lower, digit]
  | sign char =>
      obtain ⟨start, known⟩ := Lexicon.next_sign first
      obtain ⟨lower, digit⟩ := signs_plain char known
      rw [start, cut_single lower digit]
      simp [writtenScalar?, tokenScalar?, lower, digit]

theorem written_reads {input rest : List Char} {tokens : List Token}
    (reads : lexicon.Reads input tokens rest) :
    (lexemes input).filterMap writtenScalar? =
      tokens.filterMap tokenScalar? ++ (lexemes rest).filterMap writtenScalar? := by
  induction reads with
  | done same =>
      rw [← written_trim, same, written_trim]
      rfl
  | @next input middle rest token tokens first others ih =>
      obtain ⟨char, following, start, -, left⟩ := Lexicon.next_visible first
      have lexeme := written_lexeme first
      rw [start] at lexeme
      rw [← written_trim, start, lexemes_cons, filter_map_cons, lexeme, left, ih, filter_map_cons,
        List.append_assoc]

theorem count_run {test : Char → Bool} {char : Char} (outside : test char = false)
    (text : List Char) : (text.takeWhile test).count char = 0 ∧
      text.count char = (text.dropWhile test).count char := by
  have absent : (text.takeWhile test).count char = 0 := by
    apply List.count_eq_zero_of_not_mem
    intro member
    rw [List.mem_takeWhile_imp member] at outside
    contradiction
  refine ⟨absent, ?_⟩
  conv_lhs => rw [← List.takeWhile_append_dropWhile (p := test) (l := text)]
  rw [List.count_append, absent, Nat.zero_add]

theorem count_next {char : Char} (outside : isWordChar char = false)
    (visible : isSpace char = false) {input middle : List Char} {token : Token}
    (first : lexicon.next? input = some (token, middle)) :
    input.count char = [token].count (.sign char) + middle.count char := by
  obtain ⟨notLower, notDigit⟩ := not_word_char outside
  rw [(count_run visible input).2]
  show (trim input).count char = _
  cases token with
  | word text =>
      obtain ⟨start, rest, same, lower, rfl, rfl⟩ := Lexicon.next_word first
      have differs : start ≠ char := by
        rintro rfl
        exact Bool.false_ne_true (notLower.symm.trans lower)
      rw [same, List.count_cons_of_ne differs, (count_run outside rest).2]
      simp
  | numeral value =>
      obtain ⟨start, rest, same, digit, -, rfl, rfl⟩ := Lexicon.next_numeral first
      have differs : start ≠ char := by
        rintro rfl
        exact Bool.false_ne_true (notDigit.symm.trans digit)
      rw [same, List.count_cons_of_ne differs, (count_run notDigit rest).2]
      simp
  | sign start =>
      obtain ⟨same, -⟩ := Lexicon.next_sign first
      rw [same, List.count_cons]
      simp [List.count_cons, Nat.add_comm]

theorem count_reads {char : Char} (outside : isWordChar char = false)
    (visible : isSpace char = false) {input rest : List Char} {tokens : List Token}
    (reads : lexicon.Reads input tokens rest) :
    input.count char = tokens.count (.sign char) + rest.count char := by
  induction reads with
  | @done input rest same =>
      have equal : (trim input).count char = (trim rest).count char := by rw [same]
      rw [(count_run visible input).2, (count_run visible rest).2, List.count_nil, Nat.zero_add]
      exact equal
  | @next input middle rest token tokens first others ih =>
      rw [← List.singleton_append, List.count_append, Nat.add_assoc, ← ih]
      exact count_next outside visible first

/-! A derivation keeps the account: what its tokens hold, its trees hold. -/

def arithmeticSigns : List Char := ['+', '-', '*', '/']

/-- The trees hold what the tokens write: the scalars in order, and a node for every operator. -/
structure Accounts (tokens : List Token) (trees : List Tree) : Prop where
  scalars : (Tree.preorders trees).filterMap Tree.scalar? = tokens.filterMap tokenScalar?
  operators : ∀ sign ∈ arithmeticSigns,
    (Tree.preorders trees).countP (Tree.isBinary (String.singleton sign)) =
      tokens.count (.sign sign)

theorem preorders_append (first second : List Tree) :
    Tree.preorders (first ++ second) = Tree.preorders first ++ Tree.preorders second := by
  induction first with
  | nil => rfl
  | cons tree trees ih => rw [List.cons_append, Tree.preorders, Tree.preorders, ih, List.append_assoc]

theorem preorders_node (operator : String) (operands : List Tree) :
    Tree.preorders [.node operator operands] =
      .node operator operands :: Tree.preorders operands := List.append_nil _

namespace Accounts

theorem nil : Accounts [] [] := ⟨rfl, fun _ _ => rfl⟩

theorem append {tokens others : List Token} {trees more : List Tree}
    (first : Accounts tokens trees) (second : Accounts others more) :
    Accounts (tokens ++ others) (trees ++ more) := by
  constructor
  · rw [preorders_append, List.filterMap_append, List.filterMap_append, first.scalars,
      second.scalars]
  · intro sign known
    rw [preorders_append, List.countP_append, List.count_append, first.operators sign known,
      second.operators sign known]

/-- Keywords, and signs that are no operators, leave nothing in the trees. -/
theorem keyword {text : String} (known : text ∈ keywords) : Accounts [.word text] [] :=
  ⟨by simp [tokenScalar?, known, Tree.preorders], fun sign _ => by simp [Tree.preorders]⟩

theorem sign {char : Char} (other : char ∉ arithmeticSigns) : Accounts [.sign char] [] := by
  refine ⟨rfl, ?_⟩
  intro sign known
  have differs : Token.sign char ≠ .sign sign := by
    rintro ⟨⟩
    exact other known
  rw [List.count_cons_of_ne differs]
  rfl

theorem enclosed {opening closing : Char} {tokens : List Token} {trees : List Tree}
    (first : opening ∉ arithmeticSigns) (last : closing ∉ arithmeticSigns)
    (inner : Accounts tokens trees) :
    Accounts (.sign opening :: tokens ++ [.sign closing]) trees := by
  have whole := ((sign first).append inner).append (sign last)
  rwa [List.append_nil] at whole

theorem parenthesized {tokens : List Token} {trees : List Tree} (inner : Accounts tokens trees) :
    Accounts (.sign '(' :: tokens ++ [.sign ')']) trees := inner.enclosed (by decide) (by decide)

theorem name {text : String} (proper : IsName text) : Accounts [.word text] [.name text] := by
  refine ⟨?_, fun sign _ => ?_⟩
  · have written : tokenScalar? (.word text) = some (.name text) := if_neg proper
    rw [List.filterMap_cons_some written]
    rfl
  · rfl

theorem number (value : Nat) : Accounts [.numeral value] [.number value] :=
  ⟨rfl, fun _ _ => rfl⟩

/-- A node of any other kind adds nothing to what its operands hold. -/
theorem node {operator : String} {tokens : List Token} {operands : List Tree}
    (other : operator ∉ arithmeticSigns.map String.singleton)
    (inner : Accounts tokens operands) : Accounts tokens [.node operator operands] := by
  constructor
  · rw [preorders_node, List.filterMap_cons_none rfl]
    exact inner.scalars
  · intro sign known
    have silent : (Tree.node operator operands).isBinary (String.singleton sign) = false := by
      rw [Tree.isBinary.eq_def]
      split
      · next same =>
          cases same
          apply beq_false_of_ne
          rintro rfl
          exact other (List.mem_map_of_mem known)
      · rfl
    rw [preorders_node, List.countP_cons_of_neg (by simp [silent])]
    exact inner.operators sign known

theorem binary {operator : Char} {tokens following : List Token} {lhs rhs : Tree}
    (left : Accounts tokens [lhs]) (right : Accounts following [rhs]) :
    Accounts (tokens ++ .sign operator :: following) [.node operator.toString [lhs, rhs]] := by
  have operands : Accounts (tokens ++ following) [lhs, rhs] := left.append right
  constructor
  · rw [preorders_node, List.filterMap_cons_none rfl, operands.scalars, List.filterMap_append,
      List.filterMap_append]
    rfl
  · intro sign known
    have same : (Tree.node operator.toString [lhs, rhs]).isBinary (String.singleton sign) =
        (Token.sign operator == Token.sign sign) := by
      rw [Bool.eq_iff_iff, Tree.isBinary, beq_iff_eq, beq_iff_eq, Token.sign.injEq]
      exact String.singleton_inj
    rw [preorders_node, List.countP_cons, operands.operators sign known, same, List.count_append,
      List.count_append, List.count_cons, Nat.add_assoc]

end Accounts

theorem accounts_of_derives {phrase : Phrase} {tokens : List Token} {trees : List Tree}
    (derives : Derives phrase tokens trees) : Accounts tokens trees := by
  induction derives with
  | name proper => exact .name proper
  | number value => exact .number value
  | parentheses inner ih => exact ih.parenthesized
  | factorCall call ih => exact ih
  | call proper inner ih =>
      have arguments := ih.parenthesized
      exact ((Accounts.name proper).append arguments).node (by decide)
  | noArgument => exact .nil
  | someArguments inner ih => exact ih
  | lastExpression last ih => exact ih
  | nextExpression first others ih ihOthers =>
      exact ih.append ((Accounts.sign (by decide)).append ihOthers)
  | lastFactor operand ih | lastProduct operand ih => exact ih
  | nextFactor operand level chain ih ihChain | nextProduct operand level chain ih ihChain =>
      exact ih.binary ihChain
  | block inner ih => exact (ih.enclosed (by decide) (by decide)).node (by decide)
  | oneBranch tested first ih ihFirst =>
      have keyword : Accounts [.word "if"] [] := .keyword (by decide)
      have condition := ih.parenthesized
      have whole := (keyword.append condition).append ihFirst
      simp only [List.append_assoc, List.cons_append, List.nil_append] at whole ⊢
      exact whole.node (by decide)
  | twoBranches tested first kind second ih ihFirst ihSecond =>
      have keyword : Accounts [.word "if"] [] := .keyword (by decide)
      have condition := ih.parenthesized
      have otherwise : Accounts [.word "else"] [] := .keyword (by decide)
      have other := otherwise.append ihSecond
      have whole := ((keyword.append condition).append ihFirst).append other
      simp only [List.append_assoc, List.cons_append, List.nil_append] at whole ⊢
      exact whole.node (by decide)
  | expressionConditional conditional ih => exact ih
  | expressionSum sum ih => exact ih
  | assignment proper value ih =>
      have equals : Accounts [.sign '='] [] := .sign (by decide)
      exact ((Accounts.name proper).append (equals.append ih)).node (by decide)
  | noParameter => exact .nil
  | someParameters inner ih => exact ih
  | lastName proper => exact .name proper
  | nextName proper others ih =>
      exact (Accounts.name proper).append ((Accounts.sign (by decide)).append ih)
  | definition proper listed inner ih ihInner =>
      have keyword : Accounts [.word "fn"] [] := .keyword (by decide)
      have parameters := ih.parenthesized
      have listed : Accounts _ [.node "params" _] := parameters.node (by decide)
      have whole := ((keyword.append (.name proper)).append listed).append ihInner
      simp only [List.append_assoc, List.cons_append, List.nil_append] at whole ⊢
      exact whole.node (by decide)
  | statementDefinition inner ih => exact ih
  | statementAssignment inner ih => exact ih.append (.sign (by decide))
  | statementConditional inner ih => exact ih
  | statementClosed inner ih => exact ih.append (.sign (by decide))
  | statementSum inner ih => exact ih.append (.sign (by decide))
  | noStatement => exact .nil
  | nextStatement first others ih ihOthers => exact ih.append ihOthers

theorem operator_outside {sign : Char} (known : sign ∈ arithmeticSigns) :
    isWordChar sign = false ∧ isSpace sign = false := by
  simp only [arithmeticSigns, List.mem_cons, List.not_mem_nil, or_false] at known
  rcases known with rfl | rfl | rfl | rfl <;> exact ⟨rfl, rfl⟩

/-- What the tokens of a whole source write is what is written in it. -/
theorem source_accounts {source : List Char} {tokens : List Token} {trees : List Tree}
    (reads : lexicon.Reads source tokens []) (accounts : Accounts tokens trees) :
    (Tree.preorders trees).filterMap Tree.scalar? =
        (lexemes source).filterMap writtenScalar? ∧
      ∀ sign ∈ arithmeticSigns,
        (Tree.preorders trees).countP (Tree.isBinary (String.singleton sign)) =
          source.count sign := by
  constructor
  · have written := written_reads reads
    rw [lexemes, List.filterMap_nil, List.append_nil] at written
    exact accounts.scalars.trans written.symm
  · intro sign known
    obtain ⟨outside, visible⟩ := operator_outside known
    exact (accounts.operators sign known).trans (count_reads outside visible reads).symm

theorem trees_hold_what_is_written (source : List Char) :
    (∀ trees, parseProgram source = .ok trees →
      (Tree.preorders trees).filterMap Tree.scalar? =
          (lexemes source).filterMap writtenScalar? ∧
        ∀ sign ∈ arithmeticSigns,
          (Tree.preorders trees).countP (Tree.isBinary (String.singleton sign)) =
            source.count sign) ∧
    ∀ tree, parseExpression source = .ok tree →
      tree.preorder.filterMap Tree.scalar? = (lexemes source).filterMap writtenScalar? ∧
        ∀ sign ∈ arithmeticSigns,
          tree.preorder.countP (Tree.isBinary (String.singleton sign)) = source.count sign := by
  constructor
  · intro trees parsed
    obtain ⟨tokens, reads, phrases⟩ := derives_of_parse_program parsed
    exact source_accounts reads (accounts_of_derives phrases)
  · intro tree parsed
    obtain ⟨tokens, reads, phrase⟩ := derives_of_parse_expression parsed
    have accounts := source_accounts reads (accounts_of_derives phrase)
    rwa [Tree.preorders, Tree.preorders, List.append_nil] at accounts

/-- A call that is abandoned for a variable, and an assignment for an expression, leave no trace. -/
theorem abandoned_attempts_leave_no_trace :
    parseProgram "fn f(if1){f-if1;}".toList =
        .ok [.node "fn" [.name "f", .node "params" [.name "if1"],
          .node "block" [.node "-" [.name "f", .name "if1"]]]] ∧
      (lexemes "fn f(if1){f-if1;}".toList).filterMap writtenScalar? =
        [.name "f", .name "if1", .name "f", .name "if1"] ∧
      "fn f(if1){f-if1;}".toList.count '-' = 1 ∧
      parseExpression "7".toList = .ok (.number 7) ∧
      (lexemes "7".toList).filterMap writtenScalar? = [.number 7] := by
  have run : advance (parser .statement) "fn f(if1){f-if1;}".toList =
      ([.node "fn" [.name "f", .node "params" [.name "if1"],
          .node "block" [.node "-" [.name "f", .name "if1"]]]], []) := by
    decide +kernel
  have program : parseProgram "fn f(if1){f-if1;}".toList =
      .ok [.node "fn" [.name "f", .node "params" [.name "if1"],
          .node "block" [.node "-" [.name "f", .name "if1"]]]] := by
    rw [parse_program_eq, run]
    rfl
  have expression : parseExpression "7".toList = .ok (.number 7) :=
    complete_ok.mpr ⟨[], by decide +kernel, rfl⟩
  obtain ⟨scalars, operators⟩ := (trees_hold_what_is_written _).1 _ program
  exact ⟨program, scalars.symm, (operators '-' (by decide)).symm, expression,
    ((trees_hold_what_is_written _).2 _ expression).1.symm⟩

end Descent.Script
