import Descent.Proofs.Arithmetic.Recognition
import Descent.Proofs.Parser.Trimming
import Descent.Proofs.Script.Recognition
import Descent.Proofs.Seams

/-!
What a rule consumes is a sentence of the rule by itself. The tokens that are read up to a place
are the tokens of the text in front of it, so the rule matches that text with the same tree, and it
remains to see that no spaces are left over. The rules of scripts and all chains that group to the
left skip the spaces behind them. Factors and chains that group to the right leave these spaces over
if they match a single token, and only then, so a second match ends where the first one did. Main
statement: every rule of both grammars matches what it consumes completely, with the same value.
-/

namespace Descent

open Descent.Parser Text

/-- Cut off what follows a match, and the rest of the input is matched with the same value. -/
def Parser.SelfContained {α : Type} (parser : Parser α) : Prop :=
  ∀ front rest value, parser (front ++ rest) = .matched value rest →
    parser front = .matched value []

/-- A parser that skips the spaces behind it leaves nothing of a blank rest. -/
theorem Parser.Trims.consumes_blank {α : Type} {parser : Parser α} (trims : parser.Trims)
    {front : List Char} {value : α} (parsed : parser.Yields front value []) :
    parser front = .matched value [] := by
  obtain ⟨last, run, blank⟩ := parsed front rfl
  rw [run, ← trims _ _ _ run, blank, trim_nil]

namespace Script

theorem symbol_trims (text : String) : (symbol text).Trims := token_trims _

theorem variable_name_trims : variableName.Trims := verify_trims (token_trims _) _

theorem parenthesized_trims {α : Type} (parser : Parser α) : (parenthesized parser).Trims :=
  between_trims (symbol_trims _)

theorem chain_trims {operand tail : Parser Tree} {operator : Parser String}
    (trims : operand.Trims) (others : tail.Trims) : (chainOf operand operator tail).Trims := by
  apply trims.bind
  intro lhs
  apply (optional_stays_trimmed (pair_trims others)).bind
  rintro (_ | ⟨operator, rhs⟩) <;> exact pure_stays_trimmed _

theorem productions_trim (rules : Rule → Parser Tree) (trims : ∀ rule, (rules rule).Trims)
    (rule : Rule) : (productions rules rule).Trims := by
  cases rule with
  | call =>
      apply bind_trims
      intro name
      exact (parenthesized_trims _).bind fun _ => pure_stays_trimmed _
  | factor =>
      simp only [productions, factorOf, choice_cons, choice_singleton]
      apply or_else_trims (parenthesized_trims _)
      apply or_else_trims (trims _)
      exact or_else_trims (map_trims _ (token_trims _)) (map_trims _ variable_name_trims)
  | product => exact chain_trims (trims _) (trims _)
  | sum => exact chain_trims (trims _) (trims _)
  | block => exact map_trims _ (between_trims (symbol_trims _))
  | conditional =>
      apply bind_trims
      intro _
      apply bind_trims
      intro condition
      apply (trims .block).bind
      intro consequence
      have alternative : (precededBy (keyword "else")
          (rules .conditional <|> rules .block)).Trims :=
        preceded_by_trims (or_else_trims (trims _) (trims _))
      exact (optional_stays_trimmed alternative).bind fun _ => pure_stays_trimmed _
  | expression => exact or_else_trims (trims _) (trims _)
  | assignment =>
      apply bind_trims
      intro name
      apply bind_trims
      intro _
      exact (trims .expression).bind fun _ => pure_stays_trimmed _
  | definition =>
      apply bind_trims
      intro _
      apply bind_trims
      intro name
      apply bind_trims
      intro parameters
      exact (trims .block).bind fun _ => pure_stays_trimmed _
  | statement =>
      simp only [productions, statementOf, choice_cons, choice_singleton]
      apply or_else_trims (trims _)
      apply or_else_trims (terminated_by_trims (symbol_trims _))
      exact or_else_trims
        ((trims _).terminated_by (optional_stays_trimmed (symbol_trims _)))
        (terminated_by_trims (symbol_trims _))

theorem parser_trims (rule : Rule) : (parser rule).Trims := by
  intro input
  apply grammar.parser_induction (motive := fun rule input outcome => ∀ tree rest,
    outcome = .matched tree rest → trim rest = rest)
  · intro rule input tree rest run
    contradiction
  · intro rules trims rule input
    exact productions_trim rules trims rule input

theorem rule_self_contained (rule : Rule) : (parser rule).SelfContained := by
  intro front rest tree run
  obtain ⟨tokens, reads, phrase⟩ := parser_recognizes rule _ tree rest run
  obtain ⟨_, ⟨⟩, parsed⟩ :=
    parses_of_derives phrase front [] (Lexicon.reads_up_to reads) (nothing_closes _)
  exact (parser_trims rule).consumes_blank parsed

theorem variable_name_self_contained : variableName.SelfContained := by
  intro front rest text run
  obtain ⟨proper, reads⟩ := variable_name_reads run
  exact variable_name_trims.consumes_blank
    (variable_name_yields proper (Lexicon.reads_up_to reads))

end Script

namespace Arithmetic

variable {associativity : Associativity} {level : Bool} {input rest : List Char}

/-- The text in front of the rest is a single token, or it has several and no spaces follow. -/
def EndsAtToken (input rest : List Char) : Prop :=
  (∃ token, lexicon.next? input = some (token, rest)) ∨
    trim rest = rest ∧ ∃ tokens, lexicon.Reads input tokens rest ∧ tokens.length ≠ 1

theorem EndsAtToken.of_trim (ended : EndsAtToken (trim input) rest) : EndsAtToken input rest := by
  rcases ended with ⟨token, first⟩ | ⟨trimmed, tokens, reads, several⟩
  · exact .inl ⟨token, Lexicon.next_trim input ▸ first⟩
  · exact .inr ⟨trimmed, tokens, reads.congr_left (trim_trim input), several⟩

/-- If one match consumes a text and another one all of this text but spaces, both end at the same
place: as single tokens do, or where no spaces follow. -/
theorem EndsAtToken.nothing_left {front last : List Char} (whole : EndsAtToken (front ++ rest) rest)
    (alone : EndsAtToken front last) (blank : trim last = []) : last = [] := by
  rcases alone with ⟨token, first⟩ | ⟨trimmed, -⟩
  · by_contra left
    have again := Lexicon.next_append first (.inl left) rest
    rcases whole with ⟨other, ended⟩ | ⟨-, tokens, reads, several⟩
    · rw [again, Option.some.injEq, Prod.mk.injEq, List.append_left_eq_self] at ended
      exact left ended.2
    · have single := (Lexicon.Reads.single again).congr_right (trim_append_of_spaces blank rest)
      exact several (by rw [reads.unique single]; rfl)
  · rw [← trimmed, blank]

theorem enclosed_reads {expr : Expr}
    (run : between (token (character '(')) (token (character ')'))
      (parser associativity .expr) input = .matched expr rest) :
    trim rest = rest ∧ ∃ tokens, lexicon.Reads input (.sign '(' :: tokens ++ [.sign ')']) rest ∧
      Rule.expr.Language associativity tokens expr := by
  obtain ⟨_, middle, inner, _, opened, parsed, closed⟩ := between_matched.mp run
  obtain ⟨tokens, reads, phrase⟩ := parser_recognizes associativity .expr middle _ _ parsed
  have front := character_reads '(' (by decide) opened
  have back := character_reads ')' (by decide) closed
  exact ⟨token_trims _ _ _ _ closed, tokens, front.append (reads.append back), phrase⟩

theorem factor_ends {expr : Expr}
    (run : parser associativity .factor input = .matched expr rest) : EndsAtToken input rest := by
  rw [factor_eq] at run
  rcases or_else_matched.mp run with found | ⟨-, found⟩
  · obtain ⟨trimmed, tokens, reads, -⟩ := enclosed_reads found
    exact .inr ⟨trimmed, _, reads, by simp⟩
  · obtain ⟨-, value, -, first⟩ := number_next found
    exact .inl ⟨_, first⟩

theorem derives_ne_nil {rule : Rule} {tokens : List Token} {first : Expr}
    {others : List (Operator × Expr)} (derives : Derives associativity rule tokens first others) :
    tokens ≠ [] := by
  induction derives with
  | number value => exact List.cons_ne_nil _ _
  | parentheses inner ih => exact List.cons_ne_nil _ _
  | lastFactor operand ih | lastTerm operand ih => exact ih
  | nextFactor operand same chain ih ihChain | nextTerm operand same chain ih ihChain =>
      exact List.append_ne_nil_of_left_ne_nil ih _

/-- A chain that groups to the right ends as its first operand does, or skips the spaces behind it
after an operator. -/
theorem right_ends (rule : Rule) (input : List Char) :
    ∀ expr rest, parser .right rule input = .matched expr rest → EndsAtToken input rest := by
  induction rule, input using rule_induction with
  | factor input inner =>
      intro expr rest run
      exact factor_ends run
  | chain level input operands =>
      intro expr rest run
      have leading := (trim_suffix input).length_le
      rw [right_chain_eq] at run
      obtain ⟨lhs, left, begun, alone | longer⟩ := right_chain_matched run
      · obtain ⟨-, rfl⟩ := alone
        exact (operands _ leading _ _ begun).of_trim
      · obtain ⟨operator, rhs, middle, last, signed, tailed, -, rfl⟩ := longer
        obtain ⟨tokens, reads, first, links, derives, -⟩ := parser_recognizes .right _ _ _ _ begun
        obtain ⟨-, sign⟩ := level_reads signed
        obtain ⟨more, tail, -⟩ := parser_recognizes .right _ _ _ _ tailed
        have whole := (reads.congr_left (trim_trim input)).append (sign.append tail)
        have some := List.length_pos_of_ne_nil (derives_ne_nil derives)
        refine .inr ⟨trim_trim last, _, whole.congr_right (trim_trim last).symm, ?_⟩
        simp only [List.length_append, List.length_cons]
        omega

theorem left_chain_trims (operand : Parser Expr) (operator : Parser Operator) :
    (leftChain operand operator).Trims := by
  intro input expr rest run
  rw [left_chain_apply] at run
  cases begun : operand (trim input) with
  | failed stop => rw [begun] at run; contradiction
  | matched first left =>
      rw [begun] at run
      cases run
      exact trim_trim _

theorem factor_self_contained (associativity : Associativity) :
    (parser associativity .factor).SelfContained := by
  intro front rest expr run
  have ended := factor_ends run
  suffices alone : ∃ last, parser associativity .factor front = .matched expr last ∧
      trim last = [] by
    obtain ⟨last, run, blank⟩ := alone
    rw [run, ended.nothing_left (factor_ends run) blank]
  rw [factor_eq] at run
  rcases or_else_matched.mp run with found | ⟨-, found⟩
  · obtain ⟨-, tokens, reads, phrase⟩ := enclosed_reads found
    obtain ⟨start, stop, opened, middle, closed⟩ := (Lexicon.reads_up_to reads).enclosed
    exact factor_parentheses opened
      (chain_language_yields true phrase middle (closes_before_parenthesis closed)) closed front rfl
  · obtain ⟨trimmed, value, rfl, first⟩ := number_next found
    have parsed : (spaced (parser associativity .factor)).Yields front (.number value) [] :=
      factor_number (Lexicon.reads_up_to (.single first))
    obtain ⟨last, alone, blank⟩ := parsed front rfl
    rw [spaced_apply, trim_front trimmed] at alone
    exact ⟨last, alone, blank⟩

theorem chain_self_contained (associativity : Associativity) (level : Bool) :
    (parser associativity (chainRule level)).SelfContained := by
  intro front rest expr run
  obtain ⟨tokens, reads, phrase⟩ := parser_recognizes associativity _ _ _ _ run
  have parsed :=
    chain_language_yields level phrase (Lexicon.reads_up_to reads) (nothing_closes _)
  cases associativity with
  | right =>
      obtain ⟨last, alone, blank⟩ := parsed front rfl
      have ended := right_ends _ _ _ _ run
      rw [alone, ended.nothing_left (right_ends _ _ _ _ alone) blank]
  | left =>
      have trims : (parser .left (chainRule level)).Trims := by
        rw [left_chain_eq]
        exact left_chain_trims _ _
      exact trims.consumes_blank parsed

theorem rule_self_contained (associativity : Associativity) (rule : Rule) :
    (parser associativity rule).SelfContained := by
  cases rule with
  | factor => exact factor_self_contained associativity
  | term => exact chain_self_contained associativity false
  | expr => exact chain_self_contained associativity true

end Arithmetic

/-- What a rule of either grammar consumes, it matches completely when nothing follows. -/
theorem rules_are_self_contained :
    (∀ rule, (Script.parser rule).SelfContained) ∧ Script.variableName.SelfContained ∧
      (∀ associativity rule, (Arithmetic.parser associativity rule).SelfContained) ∧
      ∀ calculator : Arithmetic.Calculator, calculator.expression.SelfContained :=
  ⟨Script.rule_self_contained, Script.variable_name_self_contained,
    Arithmetic.rule_self_contained,
    fun calculator => Arithmetic.rule_self_contained calculator.associativity .expr⟩

/-- An operator without a second operand and a call without an end are given up. -/
theorem abandoned_phrases_are_self_contained :
    (Arithmetic.Calculator.expression ⟨.right⟩ ("(1) + 2 ".toList ++ "* x".toList) =
        .matched (.binary .add (.number 1) (.number 2)) "* x".toList ∧
      Arithmetic.Calculator.expression ⟨.right⟩ "(1) + 2 ".toList =
        .matched (.binary .add (.number 1) (.number 2)) []) ∧
    Script.parser .sum ("a + f ".toList ++ "(b;".toList) =
        .matched (.node "+" [.name "a", .name "f"]) "(b;".toList ∧
      Script.parser .sum "a + f ".toList = .matched (.node "+" [.name "a", .name "f"]) [] := by
  have chain : Arithmetic.Calculator.expression ⟨.right⟩ ("(1) + 2 ".toList ++ "* x".toList) =
      .matched (.binary .add (.number 1) (.number 2)) "* x".toList := by decide +kernel
  have sum : Script.parser .sum ("a + f ".toList ++ "(b;".toList) =
      .matched (.node "+" [.name "a", .name "f"]) "(b;".toList := by decide +kernel
  exact ⟨⟨chain, rules_are_self_contained.2.2.2 _ _ _ _ chain⟩,
    sum, rules_are_self_contained.1 _ _ _ _ sum⟩

end Descent
