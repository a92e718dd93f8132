import Descent.Proofs.Script.Lookahead

/-!
Every phrase of the grammar is parsed, and parsed with its tree, wherever it stands in a text, as
long as nothing after it goes on with it. The proof follows the derivation: at each choice, the
alternatives before the one that is derived refuse the place, and after each phrase the optional
part that would extend it refuses.
-/

namespace Descent.Script

open Descent.Parser

variable {place middle rest : List Char}

/-- The parser that belongs to a phrase reads it between two places. -/
def Phrase.Parses (phrase : Phrase) (place : List Char) (trees : List Tree) (rest : List Char) :
    Prop :=
  match phrase with
  | .rule entered => ∃ tree, trees = [tree] ∧ (parser entered).Yields place tree rest
  | .names => ∃ names, trees = names.map .name ∧
      (commaSeparated variableName).Yields place names rest
  | .parameters => ∃ list, trees = (items list).map .name ∧
      (optional (commaSeparated variableName)).Yields place list rest
  | .expressions => (commaSeparated (parser .expression)).Yields place trees rest
  | .arguments => ∃ list, trees = items list ∧
      (optional (commaSeparated (parser .expression))).Yields place list rest
  | .statements => (many (parser .statement)).Yields place trees rest

/-- The tokens are parsed to the trees wherever they stand and the phrase is over behind them. -/
def Phrase.Accepts (phrase : Phrase) (tokens : List Token) (trees : List Tree) : Prop :=
  ∀ place rest, lexicon.Reads place tokens rest → phrase.Closes rest →
    phrase.Parses place trees rest

theorem separated_single {α : Type} {item : Parser α} {value : α}
    (parsed : item.Yields place value rest)
    (ended : ∀ middle, lexicon.next? rest ≠ some (.sign ',', middle)) :
    (commaSeparated item).Yields place [value] rest := by
  have stops : (precededBy (symbol ",") item).Refuses rest :=
    (symbol_refuses ',' (by decide) ended).bind _
  exact parsed.bind (stops.many.bind (Yields.pure [value] rest))

theorem separated_longer {α : Type} {item : Parser α} {value : α} {values : List α}
    {following : List Char} (slices : item.Slices) (parsed : item.Yields place value middle)
    (comma : lexicon.Reads middle [.sign ','] following)
    (others : (commaSeparated item).Yields following values rest) :
    (commaSeparated item).Yields place (value :: values) rest := by
  intro input same
  obtain ⟨left, first, reached⟩ := parsed input same
  obtain ⟨after, separated, gone⟩ := symbol_yields ',' (by decide) comma left reached
  obtain ⟨last, more, final⟩ := others after gone
  exact ⟨last, separated_next slices (symbol_consumes ',') first separated more, final⟩

theorem call_yields {text : String} {list : Option (List Tree)} (proper : IsName text)
    (named : lexicon.Reads place [.word text] middle)
    (listed : (parenthesized (optional (commaSeparated (parser .expression)))).Yields middle list
      rest) :
    (parser .call).Yields place (.node "call" (.name text :: items list)) rest := by
  rw [parser_eq]
  exact (variable_name_yields proper named).bind (listed.bind (Yields.pure _ rest))

theorem call_refuses {text : String} (proper : IsName text)
    (named : lexicon.Reads place [.word text] rest)
    (ended : ∀ middle, lexicon.next? rest ≠ some (.sign '(', middle)) :
    (parser .call).Refuses place := by
  rw [parser_eq]
  exact (variable_name_yields proper named).bind_refuses ((parenthesized_refuses _ ended).bind _)

theorem factor_eq : parser .factor =
    (parenthesized (parser .expression) <|> parser .call <|> Tree.number <$> natural <|>
      Tree.name <$> variableName) := by
  rw [parser_eq]
  simp only [productions, factorOf, choice_cons, choice_singleton]

theorem factor_name {text : String} (proper : IsName text)
    (named : lexicon.Reads place [.word text] rest)
    (ended : ∀ middle, lexicon.next? rest ≠ some (.sign '(', middle)) :
    (parser .factor).Yields place (.name text) rest := by
  have unopened := parenthesized_refuses (parser .expression) (named.next_ne (by simp))
  have uncalled := call_refuses proper named ended
  have unnumbered := number_refuses fun value => named.next_ne (by simp)
  rw [factor_eq]
  exact .or_else_second unopened (.or_else_second uncalled
    (.or_else_second (unnumbered.map _) ((variable_name_yields proper named).map _)))

theorem factor_number {value : Nat} (numbered : lexicon.Reads place [.numeral value] rest) :
    (parser .factor).Yields place (.number value) rest := by
  have unopened := parenthesized_refuses (parser .expression) (numbered.next_ne (by simp))
  have uncalled : (parser .call).Refuses place :=
    rule_refuses_of_reads numbered (by simp [Rule.Starts])
  rw [factor_eq]
  exact .or_else_second unopened (.or_else_second uncalled
    (.or_else_first ((number_yields numbered).map _)))

theorem factor_parentheses {tree : Tree} {inner : List Char}
    (opened : lexicon.Reads place [.sign '('] middle)
    (parsed : (parser .expression).Yields middle tree inner)
    (closed : lexicon.Reads inner [.sign ')'] rest) :
    (parser .factor).Yields place tree rest := by
  rw [factor_eq]
  exact .or_else_first (parenthesized_yields opened parsed closed)

theorem factor_call {text : String} {tokens : List Token} {tree : Tree}
    (reads : lexicon.Reads place (.word text :: tokens) rest)
    (called : (parser .call).Yields place tree rest) : (parser .factor).Yields place tree rest := by
  have unopened := parenthesized_refuses (parser .expression) (reads.next_ne (by simp))
  rw [factor_eq]
  exact .or_else_second unopened (.or_else_first called)

theorem chain_single {operand tail : Parser Tree} {operator : Parser String} {tree : Tree}
    (parsed : operand.Yields place tree rest) (ended : operator.Refuses rest) :
    (chainOf operand operator tail).Yields place tree rest :=
  parsed.bind ((ended.bind _).none.bind (Yields.pure tree rest))

theorem chain_longer {operand tail : Parser Tree} {operator : Parser String} {lhs rhs : Tree}
    {sign : String} {following : List Char} (parsed : operand.Yields place lhs middle)
    (signed : operator.Yields middle sign following) (tailed : tail.Yields following rhs rest) :
    (chainOf operand operator tail).Yields place (.node sign [lhs, rhs]) rest :=
  parsed.bind ((signed.pair tailed).some.bind (Yields.pure _ rest))

/-- The rule `chain` reads operands with one of two signs between them. Neither sign goes on with an
operand, and both go on with a chain. -/
structure Level (operand chain : Rule) (left right : Char) : Prop where
  rule_eq : parser chain = chainOf (parser operand)
    (symbol (String.singleton left) <|> symbol (String.singleton right)) (parser chain)
  left_known : left ∈ lexicon.signs
  right_known : right ∈ lexicon.signs
  differ : left ≠ right
  apart : ∀ char ∈ [left, right], .sign char ∉ operand.extensions
  extending : ∀ char ∈ [left, right], .sign char ∈ chain.extensions
  fewer : ∀ token ∈ operand.extensions, token ∈ chain.extensions

theorem product_level : Level .factor .product '*' '/' where
  rule_eq := parser_eq .product
  left_known := by decide
  right_known := by decide
  differ := by decide
  apart := by simp [Rule.extensions]
  extending := by simp [Rule.extensions]
  fewer := by decide

theorem sum_level : Level .product .sum '+' '-' where
  rule_eq := parser_eq .sum
  left_known := by decide
  right_known := by decide
  differ := by decide
  apart := by simp [Rule.extensions]
  extending := by simp [Rule.extensions]
  fewer := by decide

section Levels

variable {operand chain : Rule} {left right : Char} (level : Level operand chain left right)

include level

theorem Level.operator_yields {char : Char} (known : char ∈ [left, right])
    (reads : lexicon.Reads place [.sign char] rest) :
    (symbol (String.singleton left) <|> symbol (String.singleton right)).Yields place
      char.toString rest := by
  simp only [List.mem_cons, List.not_mem_nil, or_false] at known
  rcases known with rfl | rfl
  · exact .or_else_first (symbol_yields char level.left_known reads)
  · have unsigned := symbol_refuses left level.left_known
      (reads.next_ne (by simpa using Ne.symm level.differ))
    exact .or_else_second unsigned (symbol_yields char level.right_known reads)

theorem Level.operator_refuses (closes : (Phrase.rule chain).Closes rest) :
    (symbol (String.singleton left) <|> symbol (String.singleton right)).Refuses rest := by
  have ended (char : Char) (known : char ∈ [left, right]) :=
    closes.next_ne (level.extending char known)
  exact (symbol_refuses left level.left_known (ended left (by simp))).or_else
    (symbol_refuses right level.right_known (ended right (by simp)))

/-- The last operand is a chain by itself, as no operator follows it. -/
theorem Level.accepts_last {tokens : List Token} {tree : Tree}
    (last : (Phrase.rule operand).Accepts tokens [tree]) :
    (Phrase.rule chain).Accepts tokens [tree] := by
  intro place rest reads closes
  obtain ⟨_, ⟨⟩, parsed⟩ := last place rest reads (closes_of_subset level.fewer closes)
  refine ⟨_, rfl, ?_⟩
  rw [level.rule_eq]
  exact chain_single parsed (level.operator_refuses closes)

/-- An operand is read exactly where an operator of its level follows it. -/
theorem Level.before_operator {tokens following : List Token} {lhs : Tree} {operator : Char}
    (known : operator ∈ [left, right]) (first : (Phrase.rule operand).Accepts tokens [lhs])
    (reads : lexicon.Reads place (tokens ++ .sign operator :: following) rest) :
    ∃ middle start, (parser operand).Yields place lhs middle ∧
      (symbol (String.singleton left) <|> symbol (String.singleton right)).Yields middle
        operator.toString start ∧
      lexicon.Reads start following rest := by
  obtain ⟨middle, front, back⟩ := reads.split
  obtain ⟨start, signed, beyond⟩ := back.cons
  have ended : (Phrase.rule operand).Closes middle :=
    closes_of_reads back (level.apart operator known)
  obtain ⟨_, ⟨⟩, parsed⟩ := first place middle front ended
  exact ⟨middle, start, parsed, level.operator_yields known signed, beyond⟩

theorem Level.accepts_next {tokens following : List Token} {lhs rhs : Tree} {operator : Char}
    (known : operator ∈ [left, right]) (first : (Phrase.rule operand).Accepts tokens [lhs])
    (others : (Phrase.rule chain).Accepts following [rhs]) :
    (Phrase.rule chain).Accepts (tokens ++ .sign operator :: following)
      [.node operator.toString [lhs, rhs]] := by
  intro place rest reads closes
  obtain ⟨middle, start, parsed, signed, beyond⟩ := level.before_operator known first reads
  obtain ⟨_, ⟨⟩, tailed⟩ := others start rest beyond closes
  refine ⟨_, rfl, ?_⟩
  rw [level.rule_eq]
  exact chain_longer parsed signed tailed

end Levels

theorem block_yields {trees : List Tree} {inner : List Char}
    (opened : lexicon.Reads place [.sign '\x7b'] middle)
    (parsed : (many (parser .statement)).Yields middle trees inner)
    (closed : lexicon.Reads inner [.sign '\x7d'] rest) :
    (parser .block).Yields place (.node "block" trees) rest := by
  rw [parser_eq]
  exact (Yields.between (symbol_yields '\x7b' (by decide) opened) parsed
    (symbol_yields '\x7d' (by decide) closed)).map _

/-- A conditional up to the end of its block, before an optional branch. -/
theorem conditional_front {condition consequence : List Token} {test body : Tree}
    (reads : lexicon.Reads place
      (.word "if" :: .sign '(' :: condition ++ .sign ')' :: consequence) middle)
    (tests : (Phrase.rule .expression).Accepts condition [test])
    (bodies : (Phrase.rule .block).Accepts consequence [body]) :
    ∃ first second, (keyword "if").Yields place "if" first ∧
      (parenthesized (parser .expression)).Yields first test second ∧
      (parser .block).Yields second body middle := by
  obtain ⟨first, opened, reads⟩ := reads.cons
  obtain ⟨last, condition, reads⟩ := reads.split
  obtain ⟨inner, started, condition⟩ := condition.cons
  obtain ⟨second, ended, reads⟩ := reads.cons
  obtain ⟨_, ⟨⟩, tested⟩ := tests inner last condition (closes_of_reads ended (by decide))
  obtain ⟨_, ⟨⟩, blocked⟩ := bodies second middle reads (closes_of_complete rfl middle)
  exact ⟨first, second, keyword_yields opened, parenthesized_yields started tested ended, blocked⟩

theorem conditional_yields {test body : Tree} {alternative : Option Tree}
    {first second : List Char} (opened : (keyword "if").Yields place "if" first)
    (tested : (parenthesized (parser .expression)).Yields first test second)
    (blocked : (parser .block).Yields second body middle)
    (continued : (optional (precededBy (keyword "else")
      (parser .conditional <|> parser .block))).Yields middle alternative rest) :
    (parser .conditional).Yields place (.node "if" (test :: body :: alternative.toList)) rest := by
  rw [parser_eq]
  exact opened.bind (tested.bind (blocked.bind (continued.bind (Yields.pure _ rest))))

theorem branch_yields {rule : Rule} {tokens : List Token} {tree : Tree}
    (kind : rule ∈ [Rule.conditional, Rule.block]) (phrase : rule.Language tokens tree)
    (reads : lexicon.Reads place tokens rest) (parsed : (parser rule).Yields place tree rest) :
    (parser .conditional <|> parser .block).Yields place tree rest := by
  simp only [List.mem_cons, List.not_mem_nil, or_false] at kind
  rcases kind with rfl | rfl
  · exact .or_else_first parsed
  · obtain ⟨token, others, rfl, rfl⟩ := rule_starts phrase
    exact .or_else_second (rule_refuses_of_reads reads (by simp [Rule.Starts])) parsed

theorem expression_conditional {tree : Tree}
    (parsed : (parser .conditional).Yields place tree rest) :
    (parser .expression).Yields place tree rest := by
  rw [parser_eq]
  exact .or_else_first parsed

theorem not_starts_operand {text : String} (reserved : ¬ IsName text) :
    ¬ StartsOperand (.word text) := reserved

theorem conditional_refuses {tokens : List Token} {tree : Tree}
    (phrase : Rule.sum.Language tokens tree) (reads : lexicon.Reads place tokens rest) :
    (parser .conditional).Refuses place := by
  obtain ⟨token, others, rfl, starts⟩ := rule_starts phrase
  apply rule_refuses_of_reads reads
  intro same
  subst same
  exact not_starts_operand (by simp [IsName, keywords]) starts

theorem expression_sum {tokens : List Token} {tree : Tree} (phrase : Rule.sum.Language tokens tree)
    (reads : lexicon.Reads place tokens rest) (parsed : (parser .sum).Yields place tree rest) :
    (parser .expression).Yields place tree rest := by
  rw [parser_eq]
  exact .or_else_second (conditional_refuses phrase reads) parsed

theorem assignment_yields {text : String} {value : Tree} {following : List Char}
    (proper : IsName text) (named : lexicon.Reads place [.word text] middle)
    (equals : lexicon.Reads middle [.sign '='] following)
    (valued : (parser .expression).Yields following value rest) :
    (parser .assignment).Yields place (.node "=" [.name text, value]) rest := by
  rw [parser_eq]
  have signed := symbol_yields '=' (by decide) equals
  exact (variable_name_yields proper named).bind
    (signed.bind (valued.bind (Yields.pure _ rest)))

theorem definition_yields {text : String} {list : Option (List String)} {body : Tree}
    {first second : List Char} (proper : IsName text)
    (opened : lexicon.Reads place [.word "fn"] first)
    (named : lexicon.Reads first [.word text] second)
    (listed : (parenthesized (optional (commaSeparated variableName))).Yields second list middle)
    (blocked : (parser .block).Yields middle body rest) :
    (parser .definition).Yields place
      (.node "fn" [.name text, .node "params" ((items list).map .name), body]) rest := by
  rw [parser_eq]
  exact (keyword_yields opened).bind ((variable_name_yields proper named).bind
    (listed.bind (blocked.bind (Yields.pure _ rest))))

theorem statement_eq : parser .statement =
    (parser .definition <|> terminatedBy (parser .assignment) semicolon <|>
      terminatedBy (parser .conditional) (optional semicolon) <|>
      terminatedBy (parser .sum) semicolon) := by
  rw [parser_eq]
  simp only [productions, statementOf, choice_cons, choice_singleton]

theorem statement_definition {tree : Tree} (parsed : (parser .definition).Yields place tree rest) :
    (parser .statement).Yields place tree rest := by
  rw [statement_eq]
  exact .or_else_first parsed

theorem semicolon_yields {parser : Parser Tree} {tree : Tree}
    (parsed : parser.Yields place tree middle) (closed : lexicon.Reads middle [.sign ';'] rest) :
    (terminatedBy parser semicolon).Yields place tree rest :=
  parsed.terminated_by (symbol_yields ';' (by decide) closed)

/-- No word that is a name is a keyword, so a statement that starts with one is no definition. -/
theorem definition_refuses {token : Token} {tokens : List Token}
    (reads : lexicon.Reads place (token :: tokens) rest) (starts : StartsOperand token) :
    (parser .definition).Refuses place := by
  apply rule_refuses_of_reads reads
  intro same
  subst same
  exact not_starts_operand (by simp [IsName, keywords]) starts

theorem statement_assignment {tokens : List Token} {tree : Tree}
    (phrase : Rule.assignment.Language tokens tree)
    (reads : lexicon.Reads place tokens middle)
    (parsed : (parser .assignment).Yields place tree middle)
    (closed : lexicon.Reads middle [.sign ';'] rest) :
    (parser .statement).Yields place tree rest := by
  obtain ⟨token, others, rfl, text, proper, rfl⟩ := rule_starts phrase
  have undefined := definition_refuses reads proper
  rw [statement_eq]
  exact .or_else_second undefined (.or_else_first (semicolon_yields parsed closed))

/-- Before a conditional, neither a definition nor an assignment is tried with success. -/
theorem earlier_refuse {tokens : List Token} {tree : Tree}
    (phrase : Rule.conditional.Language tokens tree) (reads : lexicon.Reads place tokens rest) :
    (parser .definition).Refuses place ∧
      (terminatedBy (parser .assignment) semicolon).Refuses place := by
  obtain ⟨token, others, rfl, rfl⟩ := rule_starts phrase
  have undefined : (parser .definition).Refuses place :=
    rule_refuses_of_reads reads (by simp [Rule.Starts])
  have unassigned : (parser .assignment).Refuses place := by
    apply rule_refuses_of_reads reads
    intro given
    obtain ⟨text, proper, same⟩ := given
    cases same
    exact absurd proper (by simp [IsName, keywords])
  exact ⟨undefined, unassigned.bind _⟩

theorem statement_conditional {tokens : List Token} {tree : Tree} {closing : Option String}
    (phrase : Rule.conditional.Language tokens tree) (reads : lexicon.Reads place tokens middle)
    (parsed : (parser .conditional).Yields place tree middle)
    (closed : (optional semicolon).Yields middle closing rest) :
    (parser .statement).Yields place tree rest := by
  obtain ⟨undefined, unassigned⟩ := earlier_refuse phrase reads
  rw [statement_eq]
  exact .or_else_second undefined (.or_else_second unassigned
    (.or_else_first (parsed.terminated_by closed)))

/-- Where a sum stands before a semicolon, there is no assignment: an equals sign would have to
follow a first name in the sum. -/
theorem assignment_refuses {tokens : List Token} {tree : Tree}
    (phrase : Rule.sum.Language tokens tree)
    (reads : lexicon.Reads place (tokens ++ [.sign ';']) rest) :
    (parser .assignment).Refuses place := by
  apply refuses_of_unmatched
  intro input value last same run
  obtain ⟨others, assigned, language⟩ := parser_recognizes .assignment input value last run
  obtain ⟨token, more, rfl, -⟩ := rule_starts phrase
  cases language with
  | @assignment text tokens value proper valued =>
      have start : lexicon.Reads place ([.word text, .sign '='] ++ tokens) last :=
        assigned.congr_left same
      obtain ⟨middle, front, -⟩ := start.split
      have fewer : 2 ≤ (token :: more ++ [Token.sign ';']).length := by simp
      obtain ⟨following, agree, -⟩ := front.compare reads fewer
      cases more with
      | nil => simp at agree
      | cons second more =>
          simp only [List.cons_append, List.nil_append, List.cons.injEq] at agree
          obtain ⟨-, rfl, -⟩ := agree
          exact avoids_equals phrase _ _ rfl

theorem statement_sum {tokens : List Token} {tree : Tree} (phrase : Rule.sum.Language tokens tree)
    (reads : lexicon.Reads place tokens middle)
    (parsed : (parser .sum).Yields place tree middle)
    (closed : lexicon.Reads middle [.sign ';'] rest) :
    (parser .statement).Yields place tree rest := by
  have unassigned := assignment_refuses phrase (reads.append closed)
  obtain ⟨token, others, rfl, starts⟩ := rule_starts phrase
  have undefined := definition_refuses reads starts
  have unconditional : (parser .conditional).Refuses place := by
    apply rule_refuses_of_reads reads
    intro same
    subst same
    exact not_starts_operand (by simp [IsName, keywords]) starts
  rw [statement_eq]
  exact .or_else_second undefined (.or_else_second (unassigned.bind _)
    (.or_else_second (unconditional.bind _) (semicolon_yields parsed closed)))

/-- No statement starts with a token that goes on with the statement before it. -/
theorem next_statement_closes {tokens others : List Token} {tree : Tree}
    (next : Rule.statement.Language tokens tree)
    (reads : lexicon.Reads place (tokens ++ others) rest) :
    (Phrase.rule .statement).Closes place := by
  obtain ⟨token, more, rfl, starts⟩ := rule_starts next
  apply closes_of_reads reads
  intro extending
  simp only [Phrase.Extends, Rule.extensions, List.mem_cons, List.not_mem_nil, or_false]
    at extending
  rcases extending with rfl | rfl
  · rcases starts with same | same | proper
    · exact absurd same (by decide)
    · exact absurd same (by decide)
    · exact not_starts_operand (by simp [IsName, keywords]) proper
  · rcases starts with same | same | proper
    · exact absurd same (by decide)
    · exact absurd same (by decide)
    · exact absurd proper (show ¬ ';' = '(' by decide)

/-- What follows a statement in a row of statements does not go on with it. -/
theorem statement_closes {tokens : List Token} {trees : List Tree}
    (phrases : Derives .statements tokens trees) (reads : lexicon.Reads place tokens rest)
    (closes : Phrase.statements.Closes rest) : (Phrase.rule .statement).Closes place := by
  cases phrases with
  | nextStatement first others => exact next_statement_closes first reads
  | noStatement =>
      apply (closes.congr reads.same_place.symm).mono
      intro token extending same
      subst same
      simp [Phrase.Extends, Rule.extensions] at extending

theorem expression_refuses (closes : Phrase.arguments.Closes place) :
    (parser .expression).Refuses place := by
  apply rule_refuses
  intro token middle first starts
  have closing : token = .sign ')' := by simpa [Phrase.Extends] using closes token middle first
  rw [closing] at starts
  rcases starts with same | same
  · exact absurd same (by decide)
  · exact absurd same (show ¬ ')' = '(' by decide)

theorem parameter_refuses (closes : Phrase.parameters.Closes place) :
    variableName.Refuses place := by
  apply variable_name_refuses
  intro text middle first
  have closing := closes (.word text) middle first
  simp [Phrase.Extends] at closing

theorem statement_refuses (closes : Phrase.statements.Closes place) :
    (parser .statement).Refuses place := by
  apply rule_refuses
  intro token middle first starts
  have closing : token = .sign '\x7d' := by simpa [Phrase.Extends] using closes token middle first
  rw [closing] at starts
  rcases starts with same | same | same
  · exact absurd same (by decide)
  · exact absurd same (by decide)
  · exact absurd same (show ¬ '\x7d' = '(' by decide)

theorem parses_of_derives {phrase : Phrase} {tokens : List Token} {trees : List Tree}
    (derives : Derives phrase tokens trees) : phrase.Accepts tokens trees := by
  induction derives with
  | name proper =>
      intro place rest reads closes
      exact ⟨_, rfl, factor_name proper reads (closes.next_ne (by decide))⟩
  | number value =>
      intro place rest reads closes
      exact ⟨_, rfl, factor_number reads⟩
  | parentheses inner ih =>
      intro place rest reads closes
      obtain ⟨first, last, opened, middle, closed⟩ := reads.enclosed
      obtain ⟨_, ⟨⟩, parsed⟩ := ih first last middle (closes_of_reads closed (by decide))
      exact ⟨_, rfl, factor_parentheses opened parsed closed⟩
  | factorCall call ih =>
      intro place rest reads closes
      obtain ⟨_, ⟨⟩, parsed⟩ := ih place rest reads (closes_of_complete rfl rest)
      obtain ⟨_, others, rfl, text, proper, rfl⟩ := rule_starts call
      exact ⟨_, rfl, factor_call reads parsed⟩
  | call proper inner ih =>
      intro place rest reads closes
      obtain ⟨first, named, others⟩ := reads.cons
      obtain ⟨second, last, opened, middle, closed⟩ := others.enclosed
      obtain ⟨list, rfl, parsed⟩ := ih second last middle (closes_of_reads closed (by decide))
      exact ⟨_, rfl, call_yields proper named (parenthesized_yields opened parsed closed)⟩
  | noArgument =>
      intro place rest reads closes
      have refused := expression_refuses (closes.congr reads.same_place.symm)
      exact ⟨none, rfl, (refused.bind _).none.congr_right reads.same_place⟩
  | someArguments inner ih =>
      intro place rest reads closes
      have parsed := ih place rest reads (closes.mono fun token extending => by
        intro same
        subst same
        exact absurd extending (by decide))
      exact ⟨some _, rfl, parsed.some⟩
  | lastExpression last ih =>
      intro place rest reads closes
      obtain ⟨_, ⟨⟩, parsed⟩ := ih place rest reads (closes.mono fun token => .inr)
      exact separated_single parsed (closes.next_ne (.inl rfl))
  | nextExpression first others ih ihOthers =>
      intro place rest reads closes
      obtain ⟨middle, front, back⟩ := reads.split
      obtain ⟨second, comma, following⟩ := back.cons
      obtain ⟨_, ⟨⟩, parsed⟩ := ih place middle front (closes_of_reads back (by decide))
      have more := ihOthers second rest following closes
      exact separated_longer (parser_slices _) parsed comma more
  | lastFactor operand ih => exact product_level.accepts_last ih
  | nextFactor operand level chain ih ihChain => exact product_level.accepts_next level ih ihChain
  | lastProduct operand ih => exact sum_level.accepts_last ih
  | nextProduct operand level chain ih ihChain => exact sum_level.accepts_next level ih ihChain
  | block inner ih =>
      intro place rest reads closes
      obtain ⟨first, last, opened, middle, closed⟩ := reads.enclosed
      have parsed := ih first last middle (closes_of_reads closed (by decide))
      exact ⟨_, rfl, block_yields opened parsed closed⟩
  | oneBranch tested first ih ihFirst =>
      intro place rest reads closes
      obtain ⟨start, body, opened, test, blocked⟩ := conditional_front reads ih ihFirst
      have stops : (keyword "else").Refuses rest := keyword_refuses (closes.next_ne (by decide))
      exact ⟨_, rfl, conditional_yields opened test blocked (stops.bind _).none⟩
  | twoBranches tested first kind second ih ihFirst ihSecond =>
      intro place rest reads closes
      obtain ⟨middle, front, branch⟩ := reads.split
      obtain ⟨start, body, opened, test, blocked⟩ := conditional_front front ih ihFirst
      obtain ⟨next, otherwise, other⟩ := branch.cons
      have fewer : ∀ rule ∈ [Rule.conditional, Rule.block],
          ∀ token ∈ rule.extensions, token ∈ Rule.conditional.extensions := by decide
      obtain ⟨_, ⟨⟩, parsed⟩ := ihSecond next rest other (closes_of_subset (fewer _ kind) closes)
      have continued := (keyword_yields otherwise).preceded_by
        (branch_yields kind second other parsed)
      exact ⟨_, rfl, conditional_yields opened test blocked continued.some⟩
  | expressionConditional conditional ih =>
      intro place rest reads closes
      obtain ⟨_, ⟨⟩, parsed⟩ := ih place rest reads (closes_of_subset (by decide) closes)
      exact ⟨_, rfl, expression_conditional parsed⟩
  | expressionSum sum ih =>
      intro place rest reads closes
      obtain ⟨_, ⟨⟩, parsed⟩ := ih place rest reads (closes_of_subset (by decide) closes)
      exact ⟨_, rfl, expression_sum sum reads parsed⟩
  | assignment proper value ih =>
      intro place rest reads closes
      obtain ⟨first, named, reads⟩ := reads.cons
      obtain ⟨second, equals, reads⟩ := reads.cons
      obtain ⟨_, ⟨⟩, valued⟩ := ih second rest reads (closes_of_subset (by decide) closes)
      exact ⟨_, rfl, assignment_yields proper named equals valued⟩
  | noParameter =>
      intro place rest reads closes
      have refused := parameter_refuses (closes.congr reads.same_place.symm)
      exact ⟨none, rfl, (refused.bind _).none.congr_right reads.same_place⟩
  | someParameters inner ih =>
      intro place rest reads closes
      obtain ⟨names, rfl, parsed⟩ := ih place rest reads (closes.mono fun token extending => by
        intro same
        subst same
        exact absurd extending (by decide))
      exact ⟨some names, rfl, parsed.some⟩
  | lastName proper =>
      intro place rest reads closes
      exact ⟨[_], rfl, separated_single (variable_name_yields proper reads) (closes.next_ne rfl)⟩
  | nextName proper others ih =>
      intro place rest reads closes
      obtain ⟨first, named, reads⟩ := reads.cons
      obtain ⟨second, comma, reads⟩ := reads.cons
      obtain ⟨names, rfl, more⟩ := ih second rest reads closes
      exact ⟨_ :: names, rfl, separated_longer variable_name_slices
        (variable_name_yields proper named) comma more⟩
  | definition proper listed inner ih ihInner =>
      intro place rest reads closes
      obtain ⟨middle, reads, bodied⟩ := reads.split
      obtain ⟨first, opened, reads⟩ := reads.cons
      obtain ⟨second, named, reads⟩ := reads.cons
      obtain ⟨third, started, parameters⟩ := reads.cons
      obtain ⟨fourth, ended, block⟩ := bodied.cons
      obtain ⟨list, rfl, names⟩ := ih third middle parameters (closes_of_reads ended (by decide))
      obtain ⟨_, ⟨⟩, blocked⟩ := ihInner fourth rest block (closes_of_complete rfl rest)
      exact ⟨_, rfl, definition_yields proper opened named
        (parenthesized_yields started names ended) blocked⟩
  | statementDefinition inner ih =>
      intro place rest reads closes
      obtain ⟨_, ⟨⟩, parsed⟩ := ih place rest reads (closes_of_complete rfl rest)
      exact ⟨_, rfl, statement_definition parsed⟩
  | statementAssignment inner ih =>
      intro place rest reads closes
      obtain ⟨middle, reads, closed⟩ := reads.split
      obtain ⟨_, ⟨⟩, parsed⟩ := ih place middle reads (closes_of_reads closed (by decide))
      exact ⟨_, rfl, statement_assignment inner reads parsed closed⟩
  | statementConditional inner ih =>
      intro place rest reads closes
      obtain ⟨_, ⟨⟩, parsed⟩ := ih place rest reads (closes_of_subset (by decide) closes)
      have unclosed := symbol_refuses ';' (by decide) (closes.next_ne (by decide))
      exact ⟨_, rfl, statement_conditional inner reads parsed unclosed.none⟩
  | statementClosed inner ih =>
      intro place rest reads closes
      obtain ⟨middle, reads, closed⟩ := reads.split
      obtain ⟨_, ⟨⟩, parsed⟩ := ih place middle reads (closes_of_reads closed (by decide))
      have ended := symbol_yields ';' (by decide) closed
      exact ⟨_, rfl, statement_conditional inner reads parsed ended.some⟩
  | statementSum inner ih =>
      intro place rest reads closes
      obtain ⟨middle, reads, closed⟩ := reads.split
      obtain ⟨_, ⟨⟩, parsed⟩ := ih place middle reads (closes_of_reads closed (by decide))
      exact ⟨_, rfl, statement_sum inner reads parsed closed⟩
  | noStatement =>
      intro place rest reads closes
      have refused := statement_refuses (closes.congr reads.same_place.symm)
      exact refused.many.congr_right reads.same_place
  | nextStatement first others ih ihOthers =>
      intro place rest reads closes
      obtain ⟨middle, front, back⟩ := reads.split
      obtain ⟨_, ⟨⟩, parsed⟩ := ih place middle front (statement_closes others back closes)
      have more := ihOthers middle rest back closes
      obtain ⟨token, tokens, rfl, -⟩ := rule_starts first
      exact Yields.many (parser_slices _) front.shorter parsed more

end Descent.Script
