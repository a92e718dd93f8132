import Descent.Proofs.Script.Unfolding
import Descent.Proofs.Script.Vocabulary

/-!
What a rule matches is a phrase of the grammar: the tokens that it reads derive from the rule, with
the tree that it returns. The proof goes through the approximations of the rules, one production at
a time, so nothing has to be known about how deep they are nested.
-/

namespace Descent.Script

open Descent.Parser

/-- The parser reads phrases of a language only, and returns what they stand for. -/
def Recognizes {α : Type} (parser : Parser α) (language : List Token → α → Prop) : Prop :=
  ∀ input value rest, parser input = .matched value rest →
    ∃ tokens, lexicon.Reads input tokens rest ∧ language tokens value

/-- The language of a rule. -/
def Rule.Language (rule : Rule) (tokens : List Token) (tree : Tree) : Prop :=
  Derives (.rule rule) tokens [tree]

/-- Rows of items with commas between them, described by how one is made and how one grows. -/
theorem separated_recognizes {α : Type} {item : Parser α} {language : List Token → α → Prop}
    {rows : List Token → List α → Prop} (recognizes : Recognizes item language)
    (single : ∀ tokens value, language tokens value → rows tokens [value])
    (longer : ∀ tokens value following values, language tokens value → rows following values →
      rows (tokens ++ .sign ',' :: following) (value :: values)) :
    Recognizes (commaSeparated item) rows := by
  have continued (middle : List Char) : ∀ input first tokens,
      lexicon.Reads input tokens middle → language tokens first →
      ∃ others, lexicon.Reads input others (advance (precededBy (symbol ",") item) middle).2 ∧
        rows others (first :: (advance (precededBy (symbol ",") item) middle).1) := by
    fun_induction advance (precededBy (symbol ",") item) middle with
    | case1 middle value rest run shorter following ih =>
        intro input first tokens reads phrase
        obtain ⟨_, place, separated, parsed⟩ := preceded_by_matched.mp run
        obtain ⟨-, comma⟩ := symbol_reads ',' (by decide) separated
        obtain ⟨next, readsNext, phraseNext⟩ := recognizes _ _ _ parsed
        obtain ⟨others, readsOthers, row⟩ := ih place value next readsNext phraseNext
        exact ⟨tokens ++ .sign ',' :: others, reads.append (comma.append readsOthers),
          longer _ _ _ _ phrase row⟩
    | case2 middle value rest run stuck =>
        intro input first tokens reads phrase
        exact ⟨tokens, reads, single _ _ phrase⟩
    | case3 middle rest run =>
        intro input first tokens reads phrase
        exact ⟨tokens, reads, single _ _ phrase⟩
  intro input values rest run
  obtain ⟨first, others, middle, started, more, rfl⟩ := separated_matched.mp run
  obtain ⟨tokens, reads, phrase⟩ := recognizes _ _ _ started
  have row := continued middle input first tokens reads phrase
  rw [many_matched.mp more] at row
  exact row

/-- A list in parentheses that may be missing. -/
theorem listed_reads {α : Type} {item : Parser α} {rows : List Token → List α → Prop}
    (recognizes : Recognizes (commaSeparated item) rows) {input rest : List Char}
    {list : Option (List α)}
    (run : parenthesized (optional (commaSeparated item)) input = .matched list rest) :
    ∃ tokens, lexicon.Reads input (.sign '(' :: tokens ++ [.sign ')']) rest ∧
      (tokens = [] ∧ items list = [] ∨ rows tokens (items list)) := by
  obtain ⟨middle, inner, opened, parsed, closed⟩ := parenthesized_reads run
  rcases optional_matched.mp parsed with ⟨values, found, rfl⟩ | ⟨-, rfl, rfl⟩
  · obtain ⟨tokens, reads, row⟩ := recognizes _ _ _ found
    exact ⟨tokens, opened.append (reads.append closed), .inr row⟩
  · exact ⟨[], opened.append closed, .inl ⟨rfl, rfl⟩⟩

theorem expressions_recognizes {expression : Parser Tree}
    (recognizes : Recognizes expression Rule.expression.Language) :
    Recognizes (commaSeparated expression) (Derives .expressions) :=
  separated_recognizes recognizes (fun _ _ => .lastExpression) fun _ _ _ _ => .nextExpression

theorem names_recognizes :
    Recognizes (commaSeparated variableName) fun tokens names =>
      Derives .names tokens (names.map .name) := by
  have named : Recognizes variableName fun tokens name => IsName name ∧ tokens = [.word name] := by
    intro input name rest run
    obtain ⟨proper, reads⟩ := variable_name_reads run
    exact ⟨_, reads, proper, rfl⟩
  apply separated_recognizes named
  · intro tokens name given
    obtain ⟨proper, rfl⟩ := given
    exact .lastName proper
  · intro tokens name following names given row
    obtain ⟨proper, rfl⟩ := given
    exact .nextName proper row

theorem statements_recognizes {statement : Parser Tree}
    (recognizes : Recognizes statement Rule.statement.Language) :
    Recognizes (many statement) (Derives .statements) := by
  intro input trees rest run
  have advanced : ∃ tokens, lexicon.Reads input tokens (advance statement input).2 ∧
      Derives .statements tokens (advance statement input).1 := by
    clear run
    fun_induction advance statement input with
    | case1 input tree rest run shorter following ih =>
        obtain ⟨tokens, reads, phrase⟩ := recognizes _ _ _ run
        obtain ⟨others, readsOthers, phrases⟩ := ih
        exact ⟨tokens ++ others, reads.append readsOthers, .nextStatement phrase phrases⟩
    | case2 input tree rest run stuck => exact ⟨[], .refl input, .noStatement⟩
    | case3 input rest run => exact ⟨[], .refl input, .noStatement⟩
  rw [many_matched.mp run] at advanced
  exact advanced

/-- The shape that the two levels of operators share. -/
theorem chain_recognizes {operand tail : Parser Tree} {operators : List Char}
    {operator : Parser String} {language : List Token → Tree → Prop}
    {operands chains : List Token → Tree → Prop} (first : Recognizes operand operands)
    (sign : ∀ input text rest, operator input = .matched text rest →
      ∃ char ∈ operators, text = char.toString ∧ lexicon.Reads input [.sign char] rest)
    (others : Recognizes tail chains)
    (single : ∀ tokens tree, operands tokens tree → language tokens tree)
    (longer : ∀ tokens lhs char following rhs, operands tokens lhs → char ∈ operators →
      chains following rhs →
      language (tokens ++ .sign char :: following) (.node char.toString [lhs, rhs])) :
    Recognizes (chainOf operand operator tail) language := by
  intro input tree rest run
  obtain ⟨lhs, middle, parsed, more⟩ := bind_matched.mp run
  obtain ⟨continuation, last, continued, ended⟩ := bind_matched.mp more
  obtain ⟨tokens, reads, phrase⟩ := first _ _ _ parsed
  rcases optional_matched.mp continued with ⟨⟨text, rhs⟩, found, rfl⟩ | ⟨-, rfl, rfl⟩
  · obtain ⟨rfl, rfl⟩ := pure_matched.mp ended
    obtain ⟨place, signed, tailed⟩ := pair_matched.mp found
    obtain ⟨char, level, rfl, readsSign⟩ := sign _ _ _ signed
    obtain ⟨following, readsTail, chain⟩ := others _ _ _ tailed
    exact ⟨tokens ++ .sign char :: following, reads.append (readsSign.append readsTail),
      longer _ _ _ _ _ phrase level chain⟩
  · obtain ⟨rfl, rfl⟩ := pure_matched.mp ended
    exact ⟨tokens, reads, single _ _ phrase⟩

theorem operators_read (left right : Char) (knownLeft : left ∈ lexicon.signs)
    (knownRight : right ∈ lexicon.signs) (input : List Char) (text : String) (rest : List Char)
    (run : (symbol (String.singleton left) <|> symbol (String.singleton right)) input =
      .matched text rest) :
    ∃ char ∈ [left, right], text = char.toString ∧ lexicon.Reads input [.sign char] rest := by
  rcases or_else_matched.mp run with found | ⟨-, found⟩
  · obtain ⟨rfl, reads⟩ := symbol_reads left knownLeft found
    exact ⟨left, by simp, rfl, reads⟩
  · obtain ⟨rfl, reads⟩ := symbol_reads right knownRight found
    exact ⟨right, by simp, rfl, reads⟩

theorem semicolon_reads {parser : Parser Tree} {language : List Token → Tree → Prop}
    (recognizes : Recognizes parser language) {input rest : List Char} {tree : Tree}
    (run : terminatedBy parser semicolon input = .matched tree rest) :
    ∃ tokens, lexicon.Reads input (tokens ++ [.sign ';']) rest ∧ language tokens tree := by
  obtain ⟨middle, _, parsed, closed⟩ := terminated_by_matched.mp run
  obtain ⟨tokens, reads, phrase⟩ := recognizes _ _ _ parsed
  exact ⟨tokens, reads.append (symbol_reads ';' (by decide) closed).2, phrase⟩

theorem call_recognizes {expression : Parser Tree}
    (recognizes : Recognizes expression Rule.expression.Language) :
    Recognizes (callOf expression) Rule.call.Language := by
  intro input tree rest run
  obtain ⟨name, middle, named, more⟩ := bind_matched.mp run
  obtain ⟨arguments, last, listed, ended⟩ := bind_matched.mp more
  obtain ⟨rfl, rfl⟩ := pure_matched.mp ended
  obtain ⟨proper, readsName⟩ := variable_name_reads named
  obtain ⟨tokens, reads, row⟩ := listed_reads (expressions_recognizes recognizes) listed
  refine ⟨_, readsName.append reads, .call proper ?_⟩
  rcases row with ⟨rfl, none⟩ | row
  · rw [none]
    exact .noArgument
  · exact .someArguments row

theorem factor_recognizes {expression call : Parser Tree}
    (expressions : Recognizes expression Rule.expression.Language)
    (calls : Recognizes call Rule.call.Language) :
    Recognizes (factorOf expression call) Rule.factor.Language := by
  intro input tree rest run
  simp only [factorOf, choice_cons, choice_singleton] at run
  rcases or_else_matched.mp run with found | ⟨-, run⟩
  · obtain ⟨middle, inner, opened, parsed, closed⟩ := parenthesized_reads found
    obtain ⟨tokens, reads, phrase⟩ := expressions _ _ _ parsed
    exact ⟨_, opened.append (reads.append closed), .parentheses phrase⟩
  rcases or_else_matched.mp run with found | ⟨-, run⟩
  · obtain ⟨tokens, reads, phrase⟩ := calls _ _ _ found
    exact ⟨tokens, reads, .factorCall phrase⟩
  rcases or_else_matched.mp run with found | ⟨-, found⟩
  · obtain ⟨value, numbered, rfl⟩ := map_matched.mp found
    exact ⟨_, number_reads numbered, .number value⟩
  · obtain ⟨name, named, rfl⟩ := map_matched.mp found
    obtain ⟨proper, reads⟩ := variable_name_reads named
    exact ⟨_, reads, .name proper⟩

theorem product_recognizes {factor product : Parser Tree}
    (factors : Recognizes factor Rule.factor.Language)
    (products : Recognizes product Rule.product.Language) :
    Recognizes (chainOf factor (symbol "*" <|> symbol "/") product) Rule.product.Language :=
  chain_recognizes factors (operators_read '*' '/' (by decide) (by decide)) products
    (fun _ _ => .lastFactor) fun _ _ _ _ _ => .nextFactor

theorem sum_recognizes {product sum : Parser Tree}
    (products : Recognizes product Rule.product.Language)
    (sums : Recognizes sum Rule.sum.Language) :
    Recognizes (chainOf product (symbol "+" <|> symbol "-") sum) Rule.sum.Language :=
  chain_recognizes products (operators_read '+' '-' (by decide) (by decide)) sums
    (fun _ _ => .lastProduct) fun _ _ _ _ _ => .nextProduct

theorem block_recognizes {statement : Parser Tree}
    (recognizes : Recognizes statement Rule.statement.Language) :
    Recognizes (blockOf statement) Rule.block.Language := by
  intro input tree rest run
  obtain ⟨trees, found, rfl⟩ := map_matched.mp run
  obtain ⟨_, middle, inner, _, opened, parsed, closed⟩ := between_matched.mp found
  obtain ⟨tokens, reads, phrases⟩ := statements_recognizes recognizes _ _ _ parsed
  have front := (symbol_reads '\x7b' (by decide) opened).2
  have back := (symbol_reads '\x7d' (by decide) closed).2
  exact ⟨_, front.append (reads.append back), .block phrases⟩

theorem conditional_recognizes {expression block conditional : Parser Tree}
    (expressions : Recognizes expression Rule.expression.Language)
    (blocks : Recognizes block Rule.block.Language)
    (conditionals : Recognizes conditional Rule.conditional.Language) :
    Recognizes (conditionalOf expression block conditional) Rule.conditional.Language := by
  intro input tree rest run
  obtain ⟨_, first, opened, run⟩ := bind_matched.mp run
  obtain ⟨test, second, tested, run⟩ := bind_matched.mp run
  obtain ⟨body, third, blocked, run⟩ := bind_matched.mp run
  obtain ⟨alternative, last, continued, ended⟩ := bind_matched.mp run
  obtain ⟨rfl, rfl⟩ := pure_matched.mp ended
  obtain ⟨_, _, readsOpen, parsed, readsClose⟩ := parenthesized_reads tested
  obtain ⟨condition, readsCondition, tests⟩ := expressions _ _ _ parsed
  obtain ⟨consequence, readsBlock, bodies⟩ := blocks _ _ _ blocked
  have front : lexicon.Reads input
      (.word "if" :: .sign '(' :: condition ++ .sign ')' :: consequence) third := by
    have inner := readsOpen.append (readsCondition.append (readsClose.append readsBlock))
    simpa using (keyword_reads opened).append inner
  rcases optional_matched.mp continued with ⟨other, found, rfl⟩ | ⟨-, rfl, rfl⟩
  · obtain ⟨_, place, otherwise, branched⟩ := preceded_by_matched.mp found
    have readsElse := keyword_reads otherwise
    have branch : ∃ rule ∈ [Rule.conditional, Rule.block], ∃ tokens,
        lexicon.Reads place tokens last ∧ rule.Language tokens other := by
      rcases or_else_matched.mp branched with parsed | ⟨-, parsed⟩
      · exact ⟨.conditional, by simp, conditionals _ _ _ parsed⟩
      · exact ⟨.block, by simp, blocks _ _ _ parsed⟩
    obtain ⟨rule, kind, tokens, reads, phrase⟩ := branch
    exact ⟨_, front.append (readsElse.append reads), .twoBranches tests bodies kind phrase⟩
  · exact ⟨_, front, .oneBranch tests bodies⟩

theorem assignment_recognizes {expression : Parser Tree}
    (recognizes : Recognizes expression Rule.expression.Language) :
    Recognizes (assignmentOf expression) Rule.assignment.Language := by
  intro input tree rest run
  obtain ⟨name, first, named, run⟩ := bind_matched.mp run
  obtain ⟨_, second, equals, run⟩ := bind_matched.mp run
  obtain ⟨value, last, valued, ended⟩ := bind_matched.mp run
  obtain ⟨rfl, rfl⟩ := pure_matched.mp ended
  obtain ⟨proper, readsName⟩ := variable_name_reads named
  obtain ⟨-, readsSign⟩ := symbol_reads '=' (by decide) equals
  obtain ⟨tokens, reads, phrase⟩ := recognizes _ _ _ valued
  exact ⟨_, readsName.append (readsSign.append reads), .assignment proper phrase⟩

theorem definition_recognizes {block : Parser Tree}
    (recognizes : Recognizes block Rule.block.Language) :
    Recognizes (definitionOf block) Rule.definition.Language := by
  intro input tree rest run
  obtain ⟨_, first, opened, run⟩ := bind_matched.mp run
  obtain ⟨name, second, named, run⟩ := bind_matched.mp run
  obtain ⟨parameters, third, listed, run⟩ := bind_matched.mp run
  obtain ⟨body, last, blocked, ended⟩ := bind_matched.mp run
  obtain ⟨rfl, rfl⟩ := pure_matched.mp ended
  obtain ⟨proper, readsName⟩ := variable_name_reads named
  obtain ⟨tokens, readsList, row⟩ := listed_reads names_recognizes listed
  obtain ⟨block, readsBlock, bodies⟩ := recognizes _ _ _ blocked
  have names : Derives .parameters tokens ((items parameters).map .name) := by
    rcases row with ⟨rfl, none⟩ | row
    · rw [none]
      exact .noParameter
    · exact .someParameters row
  refine ⟨_, ?_, .definition proper names bodies⟩
  simpa using (keyword_reads opened).append (readsName.append (readsList.append readsBlock))

theorem statement_recognizes {definition assignment conditional sum : Parser Tree}
    (definitions : Recognizes definition Rule.definition.Language)
    (assignments : Recognizes assignment Rule.assignment.Language)
    (conditionals : Recognizes conditional Rule.conditional.Language)
    (sums : Recognizes sum Rule.sum.Language) :
    Recognizes (statementOf definition assignment conditional sum) Rule.statement.Language := by
  intro input tree rest run
  simp only [statementOf, choice_cons, choice_singleton] at run
  rcases or_else_matched.mp run with found | ⟨-, run⟩
  · obtain ⟨tokens, reads, phrase⟩ := definitions _ _ _ found
    exact ⟨tokens, reads, .statementDefinition phrase⟩
  rcases or_else_matched.mp run with found | ⟨-, run⟩
  · obtain ⟨tokens, reads, phrase⟩ := semicolon_reads assignments found
    exact ⟨_, reads, .statementAssignment phrase⟩
  rcases or_else_matched.mp run with found | ⟨-, found⟩
  · obtain ⟨middle, closing, parsed, closed⟩ := terminated_by_matched.mp found
    obtain ⟨tokens, reads, phrase⟩ := conditionals _ _ _ parsed
    rcases optional_matched.mp closed with ⟨text, ended, rfl⟩ | ⟨-, rfl, rfl⟩
    · exact ⟨_, reads.append (symbol_reads ';' (by decide) ended).2, .statementClosed phrase⟩
    · exact ⟨tokens, reads, .statementConditional phrase⟩
  · obtain ⟨tokens, reads, phrase⟩ := semicolon_reads sums found
    exact ⟨_, reads, .statementSum phrase⟩

theorem productions_recognize {rules : Rule → Parser Tree}
    (recognize : ∀ rule : Rule, Recognizes (rules rule) rule.Language) (rule : Rule) :
    Recognizes (productions rules rule) rule.Language := by
  cases rule with
  | call => exact call_recognizes (recognize _)
  | factor => exact factor_recognizes (recognize _) (recognize _)
  | product => exact product_recognizes (recognize _) (recognize _)
  | sum => exact sum_recognizes (recognize _) (recognize _)
  | block => exact block_recognizes (recognize _)
  | conditional => exact conditional_recognizes (recognize _) (recognize _) (recognize _)
  | expression =>
      intro input tree rest run
      rcases or_else_matched.mp run with found | ⟨-, found⟩
      · obtain ⟨tokens, reads, phrase⟩ := recognize _ _ _ _ found
        exact ⟨tokens, reads, .expressionConditional phrase⟩
      · obtain ⟨tokens, reads, phrase⟩ := recognize _ _ _ _ found
        exact ⟨tokens, reads, .expressionSum phrase⟩
  | assignment => exact assignment_recognizes (recognize _)
  | definition => exact definition_recognizes (recognize _)
  | statement =>
      exact statement_recognizes (recognize _) (recognize _) (recognize _) (recognize _)

theorem parser_recognizes (rule : Rule) : Recognizes (parser rule) rule.Language := by
  intro input
  apply grammar.parser_induction (motive := fun rule input outcome => ∀ tree rest,
    outcome = .matched tree rest →
      ∃ tokens, lexicon.Reads input tokens rest ∧ rule.Language tokens tree)
  · intro rule input tree rest run
    contradiction
  · intro rules recognize rule input
    exact productions_recognize recognize rule input

end Descent.Script
