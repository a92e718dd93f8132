import Descent.Proofs.Prefixes
import Descent.Proofs.Script.LongestPrefix

/-!
Where a single expression of a script goes wrong. An expression ends in a name, a number or a closing
sign, and the text may go on with each of its last phrases: with a call behind the name, an operator or
another branch. What goes on with a phrase is either complete and matched as well, or given up again
without a trace. Main statement: the offset of a syntax error is the width of the longest prefix that
is an expression by itself and ends neither inside a number nor inside a word, and it is not behind the
spaces in front if there is no such prefix.
-/

namespace Descent.Script

open Descent.Parser Text

variable {place middle rest : List Char}

/-! Phrases get at least as far as they are written. -/

/-- A name before a parenthesis is matched as a call if there is one, and otherwise by itself. -/
theorem factor_name_reaches {text : String} (proper : IsName text)
    (named : lexicon.Reads place [.word text] rest) : (parser .factor).Reaches place rest := by
  have unopened := parenthesized_refuses (parser .expression) (named.next_ne (by simp))
  have unnumbered := number_refuses fun value => named.next_ne (by simp)
  have alone : (Tree.number <$> natural <|> Tree.name <$> variableName).Yields place (.name text)
      rest := .or_else_second (unnumbered.map _) ((variable_name_yields proper named).map _)
  rw [factor_eq]
  refine .or_else_second unopened (.or_else ?_ alone.reaches)
  intro input tree last same called
  obtain ⟨tokens, reads, phrase⟩ := parser_recognizes .call input tree last called
  obtain ⟨first, others, rfl, -⟩ := rule_starts phrase
  obtain ⟨more, -, beyond⟩ := (named.congr_left same.symm).compare reads (by simp)
  exact beyond.suffix

/-- What ends a chain consumes nothing more. -/
theorem linked_reaches (lhs : Tree) (continuation : Option (String × Tree)) (place : List Char) :
    (linked lhs continuation).Reaches place place := by
  cases continuation with
  | none => exact pure_reaches _ place
  | some link => exact pure_reaches _ place

theorem chain_reaches {operand tail : Parser Tree} {operator : Parser String}
    (signs : operator.Slices) (tails : tail.Slices) (parsed : operand.Reaches place rest) :
    (chainOf operand operator tail).Reaches place rest := by
  apply parsed.bind
  intro lhs left
  exact (optional_reaches (pair_slices signs tails) left).bind (linked_reaches lhs)

theorem chain_reaches_longer {operand tail : Parser Tree} {operator : Parser String} {lhs : Tree}
    {sign : String} {following : List Char} (parsed : operand.Yields place lhs middle)
    (signed : operator.Yields middle sign following) (tailed : tail.Reaches following rest) :
    (chainOf operand operator tail).Reaches place rest := by
  have continued := (signed.pair_reaches tailed).some
  exact parsed.bind_reaches (continued.bind (linked_reaches lhs))

/-- Where the tokens are read, the parser of the rule matches up to their end, or beyond it. -/
def Rule.Covers (rule : Rule) (tokens : List Token) : Prop :=
  ∀ place rest, lexicon.Reads place tokens rest → (parser rule).Reaches place rest

/-- The rules that an expression can end in cover their phrases. -/
def Phrase.Covers : Phrase → List Token → Prop
  | .rule .factor, tokens => Rule.factor.Covers tokens
  | .rule .product, tokens => Rule.product.Covers tokens
  | .rule .sum, tokens => Rule.sum.Covers tokens
  | .rule .expression, tokens => Rule.expression.Covers tokens
  | _, _ => True

theorem Level.covers_last {operand chain : Rule} {left right : Char} {tokens : List Token}
    (level : Level operand chain left right) (covers : operand.Covers tokens) :
    chain.Covers tokens := by
  intro place rest reads
  have signs : (symbol (String.singleton left) <|> symbol (String.singleton right)).Slices :=
    or_else_slices (symbol_slices _) (symbol_slices _)
  rw [level.rule_eq]
  exact chain_reaches signs (parser_slices _) (covers place rest reads)

theorem Level.covers_next {operand chain : Rule} {left right : Char}
    {tokens following : List Token} {lhs : Tree} {operator : Char}
    (level : Level operand chain left right) (known : operator ∈ [left, right])
    (phrase : operand.Language tokens lhs) (covers : chain.Covers following) :
    chain.Covers (tokens ++ .sign operator :: following) := by
  intro place rest reads
  obtain ⟨middle, start, parsed, signed, others⟩ :=
    level.before_operator known (parses_of_derives phrase) reads
  rw [level.rule_eq]
  exact chain_reaches_longer parsed signed (covers start rest others)

/-- By induction on the derivation. Every operand but the last one ends before an operator, so only the
last one may go on. -/
theorem covers_of_derives {phrase : Phrase} {tokens : List Token} {trees : List Tree}
    (derives : Derives phrase tokens trees) : phrase.Covers tokens := by
  induction derives with
  | name proper => exact fun place rest named => factor_name_reaches proper named
  | number value => exact fun place rest numbered => (factor_number numbered).reaches
  | parentheses inner ih =>
      intro place rest reads
      obtain ⟨first, last, opened, middle, closed⟩ := reads.enclosed
      obtain ⟨_, ⟨⟩, parsed⟩ :=
        parses_of_derives inner first last middle (closes_of_reads closed (by decide))
      exact (factor_parentheses opened parsed closed).reaches
  | factorCall call ih =>
      intro place rest reads
      obtain ⟨_, ⟨⟩, parsed⟩ := parses_of_derives call place rest reads (closes_of_complete rfl rest)
      obtain ⟨_, others, rfl, text, proper, rfl⟩ := rule_starts call
      exact (factor_call reads parsed).reaches
  | lastFactor operand ih => exact product_level.covers_last ih
  | nextFactor operand level chain ih ihChain =>
      exact product_level.covers_next level operand ihChain
  | lastProduct operand ih => exact sum_level.covers_last ih
  | nextProduct operand level chain ih ihChain => exact sum_level.covers_next level operand ihChain
  | expressionConditional conditional ih =>
      intro place rest reads
      rw [parser_eq]
      exact (conditional_reaches conditional place rest reads).or_else_first
  | expressionSum sum ih =>
      intro place rest reads
      rw [parser_eq]
      exact .or_else_second (conditional_refuses sum reads) (ih place rest reads)
  | _ => trivial

theorem expression_reads :
    ReadsLanguage lexicon (parser .expression) Rule.expression.Language where
  slices := parser_slices .expression
  recognizes := parser_recognizes .expression
  covers _ _ phrase := covers_of_derives phrase

/-! An expression fails where its first operand should start. -/

/-- A keyword is refused where the spaces before it start, and whatever is no word where they end. -/
theorem variable_name_failed_at {input stop : List Char}
    (failed : variableName input = .failed stop) :
    stop = trim input ∨ stop = input ∧
      ∃ text ∈ keywords, ∃ rest, lexicon.next? input = some (.word text, rest) := by
  rw [variableName, verify] at failed
  cases run : token identifier input with
  | matched text rest =>
      rw [run] at failed
      simp only at failed
      split at failed
      · contradiction
      · next known =>
          cases failed
          have names : Takes lexicon (token identifier) Token.word? := name_takes rfl
          obtain ⟨found, middle, first, word, -⟩ := (names input text rest).mp run
          cases found with
          | word _ =>
              cases word
              exact .inr ⟨rfl, text, by simpa using known, middle, first⟩
          | numeral _ => cases word
          | sign _ => cases word
  | failed place =>
      left
      rw [run] at failed
      cases failed
      rw [token_apply] at run
      cases start : trim input with
      | nil =>
          rw [start, identifier_nil] at run
          cases run
          rfl
      | cons char rest =>
          rw [start, identifier_cons] at run
          split at run
          · contradiction
          · cases run
            rfl

theorem factor_failed {input stop : List Char} (failed : parser .factor input = .failed stop) :
    variableName input = .failed stop := by
  rw [factor_eq] at failed
  have named := failed_of_or_else (failed_of_or_else (failed_of_or_else failed))
  rw [map_apply] at named
  cases run : variableName input with
  | matched text rest => rw [run] at named; contradiction
  | failed place =>
      rw [run] at named
      cases named
      rfl

theorem chain_failed {operand tail : Parser Tree} {operator : Parser String}
    {input stop : List Char} (failed : chainOf operand operator tail input = .failed stop) :
    operand input = .failed stop := by
  rw [chain_apply] at failed
  cases run : operand input with
  | failed place => rwa [run] at failed
  | matched lhs rest =>
      rw [run, Outcome.and_then_matched] at failed
      split at failed
      · contradiction
      · contradiction

/-- The last alternative that is tried for an expression is a name. -/
theorem name_failed_of_expression {input stop : List Char}
    (failed : parser .expression input = .failed stop) : variableName input = .failed stop := by
  rw [parser_eq] at failed
  have sum := failed_of_or_else failed
  rw [parser_eq] at sum
  have product := chain_failed sum
  rw [parser_eq] at product
  exact factor_failed (chain_failed product)

theorem expression_failed {input stop : List Char}
    (failed : parser .expression input = .failed stop) : trim input <:+ stop := by
  rcases variable_name_failed_at (name_failed_of_expression failed) with rfl | ⟨rfl, -⟩
  · exact List.suffix_refl _
  · exact trim_suffix stop

/-- A prefix that is an expression by itself and ends neither inside a run of digits nor inside a
word. -/
def ExpressionPrefix (source front : List Char) : Prop :=
  ∃ back tree, front ++ back = source ∧ ¬ SplitsDigits front back ∧ ¬ SplitsWord front back ∧
    parseExpression front = .ok tree

theorem expression_prefix_iff {source front : List Char} :
    ExpressionPrefix source front ↔ (parser .expression).AcceptsPrefix source front := by
  simp only [ExpressionPrefix, AcceptsPrefix, seam_iff, and_assoc]
  exact Iff.rfl

theorem expression_error_ends_longest_prefix {source : List Char} {error : SyntaxError}
    (failed : parseExpression source = .error error) :
    (∃ front, ExpressionPrefix source front ∧ byteLength front = error.offset ∧
        ∀ other, ExpressionPrefix source other → other <+: front) ∨
      (∀ front, ¬ ExpressionPrefix source front) ∧
        error.offset ≤ byteLength (source.takeWhile isSpace) := by
  simp only [expression_prefix_iff]
  apply (expression_reads.error_ends_longest failed).imp_right
  intro given
  obtain ⟨none, stop, run, width⟩ := given
  obtain ⟨gap, rfl⟩ := expression_failed run
  have widths := congrArg byteLength
    (List.takeWhile_append_dropWhile (p := isSpace) (l := source))
  rw [byte_length_append] at widths
  rw [byte_length_append, trim] at width
  exact ⟨none, by omega⟩

/-- A call that is not closed is given up for its name, and a keyword is no expression. -/
theorem error_behind_name_and_before_keyword :
    (parseExpression "f(1".toList = .error ⟨1⟩ ∧
      ∃ front, ExpressionPrefix "f(1".toList front ∧ byteLength front = 1 ∧
        ∀ other, ExpressionPrefix "f(1".toList other → other <+: front) ∧
    (parseExpression " else".toList = .error ⟨0⟩ ∧
      ∀ front, ¬ ExpressionPrefix " else".toList front) := by
  have name : parser .expression "f(1".toList = .matched (.name "f") "(1".toList := by
    decide +kernel
  have nameError : parseExpression "f(1".toList = .error ⟨1⟩ := by
    rw [parseExpression, complete_of_matched name]
    rfl
  have keyword : parser .expression " else".toList = .failed " else".toList := by decide +kernel
  have keywordError : parseExpression " else".toList = .error ⟨0⟩ := by
    rw [parseExpression, complete_of_failed keyword]
    rfl
  refine ⟨⟨nameError, ?_⟩, keywordError, ?_⟩
  · rcases expression_error_ends_longest_prefix nameError with longest | ⟨-, spaces⟩
    · exact longest
    · exact absurd spaces (by decide)
  · rcases expression_error_ends_longest_prefix keywordError with ⟨front, begins, -⟩ | ⟨none, -⟩
    · have accepted := expression_prefix_iff.mp begins
      exact absurd accepted (expression_reads.no_prefix_of_failed keyword front)
    · exact none

end Descent.Script
