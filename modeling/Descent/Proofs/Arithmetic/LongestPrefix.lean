import Descent.Proofs.Arithmetic.Recognition
import Descent.Proofs.Prefixes

/-!
Where an expression goes wrong. If something in the text goes on with a phrase of the grammar, then
more than the phrase is matched, and where nothing is matched at all, the parser fails behind the
spaces in front. Main statement: the offset of a syntax error is the width of the longest prefix
that is an expression by itself and does not end inside a run of digits, or the width of the spaces
in front if there is no such prefix.
-/

namespace Descent.Arithmetic

open Descent.Parser Text

variable {associativity : Associativity} {level : Bool} {place middle rest : List Char}

/-! Chains get at least as far as the phrases that the text starts with. -/

theorem chained_reaches (level : Bool) {operand : Parser Expr} (slices : operand.Slices)
    (reached : (spaced operand).Reaches place rest) :
    (chained operand (levelOperator level)).Reaches place rest := by
  have links : (link operand (levelOperator level)).Slices :=
    pair_slices (token_slices (level_slices level)) (spaced_slices slices)
  apply reached.bind
  intro first left
  exact (many_reaches links left).bind fun _ last => pure_reaches _ last

theorem chained_reaches_longer (level : Bool) {operand : Parser Expr} (slices : operand.Slices)
    {expr : Expr} {operator : Operator} {following : List Char}
    (parsed : (spaced operand).Yields place expr middle)
    (signed : (token (levelOperator level)).Yields middle operator following)
    (more : (chained operand (levelOperator level)).Reaches following rest) :
    (chained operand (levelOperator level)).Reaches place rest := by
  intro input same
  obtain ⟨left, first, reached⟩ := parsed input same
  obtain ⟨after, sign, gone⟩ := signed left reached
  obtain ⟨⟨next, others⟩, last, chain, beyond⟩ := more after gone
  exact ⟨_, last, chained_next level slices first sign chain, beyond⟩

theorem chain_reaches (level : Bool)
    (reached : (chained (parser associativity (operandRule level)) (levelOperator level)).Reaches
      place rest) :
    (parser associativity (chainRule level)).Reaches place rest := by
  intro input same
  obtain ⟨chain, last, run, beyond⟩ := reached input same
  have alike := chain_alike associativity level input
  rw [run] at alike
  generalize parser associativity (chainRule level) input = outcome at alike ⊢
  cases alike with
  | matched grouped place => exact ⟨_, _, rfl, place ▸ beyond⟩

/-- Where a phrase of the language is read, the parser matches up to its end or beyond it. -/
def Covers (parser : Parser Expr) (language : List Token → Expr → Prop) : Prop :=
  ∀ tokens expr, language tokens expr →
    ∀ place rest, lexicon.Reads place tokens rest → parser.Reaches place rest

/-- Every operand but the last one ends before an operator, so only the last one may go on. -/
theorem chain_covers (level : Bool)
    (operands : Covers (spaced (parser associativity (operandRule level)))
      ((operandRule level).Language associativity)) :
    Covers (parser associativity (chainRule level))
      ((chainRule level).Language associativity) := by
  intro tokens expr phrase place rest reads
  obtain ⟨first, others, derives, -⟩ := phrase
  apply chain_reaches level
  revert place rest
  apply chain_induction (motive := fun tokens _ _ => ∀ place rest,
    lexicon.Reads place tokens rest →
      (chained (parser associativity (operandRule level)) (levelOperator level)).Reaches
        place rest) _ _ derives
  · intro tokens expr operand place rest reads
    exact chained_reaches level (parser_slices _ _) (operands _ _ operand place rest reads)
  · intro tokens expr following next others operator operand same reached place rest reads
    obtain ⟨middle, front, back⟩ := reads.split
    obtain ⟨start, sign, tail⟩ := back.cons
    exact chained_reaches_longer level (parser_slices _ _)
      (operand_yields level operand front (operand_closes_before same back))
      (level_yields same sign) (reached start rest tail)

theorem expression_covers (associativity : Associativity) :
    Covers (parser associativity .expr) (Rule.expr.Language associativity) := by
  have factors : Covers (spaced (parser associativity .factor))
      (Rule.factor.Language associativity) := fun _ _ phrase _ rest reads =>
    (operand_yields false phrase reads (factor_closes rest)).reaches
  have terms : Covers (spaced (parser associativity .term))
      (Rule.term.Language associativity) := fun tokens expr phrase place rest reads =>
    (chain_covers false factors tokens expr phrase place rest reads).spaced
  exact chain_covers true terms

/-! An expression fails where its first factor should start. -/

theorem factor_failed {input stop : List Char}
    (failed : parser associativity .factor input = .failed stop) : stop = input := by
  rw [factor_eq, factorOf, or_else_apply] at failed
  generalize between (token (character '(')) (token (character ')'))
    (parser associativity .expr) input = outcome at failed
  cases outcome with
  | matched expr rest => contradiction
  | failed place => exact number_failed failed

theorem chain_failed (level : Bool) {input stop : List Char}
    (failed : parser associativity (chainRule level) input = .failed stop) :
    parser associativity (operandRule level) (trim input) = .failed stop := by
  have alike := chain_alike associativity level input
  rw [failed, chained_apply] at alike
  cases run : parser associativity (operandRule level) (trim input) with
  | matched first left => rw [run] at alike; cases alike
  | failed place =>
      rw [run] at alike
      cases alike
      rfl

theorem expression_failed {input stop : List Char}
    (failed : parser associativity .expr input = .failed stop) : stop = trim input := by
  have term := chain_failed true failed
  have factor := chain_failed false term
  rw [factor_failed factor, trim_trim]

/-- A prefix that is an expression by itself and does not end inside a run of digits. -/
def Calculator.ExpressionPrefix (calculator : Calculator) (input front : List Char) : Prop :=
  ∃ back expr, front ++ back = input ∧ ¬ SplitsDigits front back ∧
    calculator.parse front = .ok expr

variable {calculator : Calculator} {input : List Char}

theorem expression_reads (calculator : Calculator) :
    ReadsLanguage lexicon calculator.expression
      (Rule.expr.Language calculator.associativity) where
  slices := parser_slices _ _
  recognizes := parser_recognizes calculator.associativity .expr
  covers := expression_covers calculator.associativity

/-- There are no words in an expression, so only digits could go on behind it. -/
theorem expression_prefix_iff {front : List Char} :
    calculator.ExpressionPrefix input front ↔
      calculator.expression.AcceptsPrefix input front := by
  have seam {back : List Char} {expr : Expr} (parsed : calculator.parse front = .ok expr) :
      IsSeam front back ↔ ¬ SplitsDigits front back := by
    obtain ⟨tokens, reads, -⟩ := derives_of_parse parsed
    exact seam_iff_digits (Lexicon.wordless_of_reads rfl reads) back
  constructor
  · intro given
    obtain ⟨back, expr, whole, ends, parsed⟩ := given
    exact ⟨back, expr, whole, (seam parsed).mpr ends, parsed⟩
  · intro given
    obtain ⟨back, expr, whole, ends, parsed⟩ := given
    exact ⟨back, expr, whole, (seam parsed).mp ends, parsed⟩

theorem no_prefix_of_failed {stop : List Char} (run : calculator.expression input = .failed stop)
    (front : List Char) : ¬ calculator.ExpressionPrefix input front := by
  rw [expression_prefix_iff]
  exact (expression_reads calculator).no_prefix_of_failed run front

theorem longest_of_matched {expr : Expr} (run : calculator.expression input = .matched expr rest) :
    ∃ front, front ++ trim rest = input ∧ calculator.ExpressionPrefix input front ∧
      ∀ other, calculator.ExpressionPrefix input other → other <+: front := by
  simp only [expression_prefix_iff]
  exact (expression_reads calculator).longest_of_matched run

theorem error_ends_longest_expression (calculator : Calculator) {input : List Char}
    {error : SyntaxError} (failed : calculator.parse input = .error error) :
    (∃ front, calculator.ExpressionPrefix input front ∧ byteLength front = error.offset ∧
        ∀ other, calculator.ExpressionPrefix input other → other <+: front) ∨
      (∀ front, ¬ calculator.ExpressionPrefix input front) ∧
        error.offset = byteLength (input.takeWhile isSpace) := by
  cases run : calculator.expression input with
  | failed stop =>
      right
      rw [Calculator.parse, complete_of_failed run, expression_failed run] at failed
      cases failed
      have widths := congrArg byteLength
        (List.takeWhile_append_dropWhile (p := isSpace) (l := input))
      rw [byte_length_append] at widths
      exact ⟨no_prefix_of_failed run, (Nat.eq_sub_of_add_eq widths).symm⟩
  | matched expr rest =>
      left
      obtain ⟨front, whole, begins, longest⟩ := longest_of_matched run
      rw [Calculator.parse, complete_of_matched run] at failed
      split at failed
      · contradiction
      · cases failed
        have widths := congrArg byteLength whole
        rw [byte_length_append] at widths
        exact ⟨front, begins, Nat.eq_sub_of_add_eq widths, longest⟩

/-- An operand that is not closed is given up with its operator, and a word is no operand. -/
theorem error_behind_sum_and_before_word :
    (Calculator.parse ⟨.left⟩ "1 + 2 * (3".toList = .error ⟨6⟩ ∧
      ∃ front, Calculator.ExpressionPrefix ⟨.left⟩ "1 + 2 * (3".toList front ∧
        byteLength front = 6 ∧
        ∀ other, Calculator.ExpressionPrefix ⟨.left⟩ "1 + 2 * (3".toList other →
          other <+: front) ∧
    (Calculator.parse ⟨.right⟩ " x".toList = .error ⟨1⟩ ∧
      ∀ front, ¬ Calculator.ExpressionPrefix ⟨.right⟩ " x".toList front) := by
  have sum : Calculator.expression ⟨.left⟩ "1 + 2 * (3".toList =
      .matched (.binary .add (.number 1) (.number 2)) "* (3".toList := by decide +kernel
  have sumError : Calculator.parse ⟨.left⟩ "1 + 2 * (3".toList = .error ⟨6⟩ := by
    rw [Calculator.parse, complete_of_matched sum]
    rfl
  have word : Calculator.expression ⟨.right⟩ " x".toList = .failed "x".toList := by decide +kernel
  have wordError : Calculator.parse ⟨.right⟩ " x".toList = .error ⟨1⟩ := by
    rw [Calculator.parse, complete_of_failed word]
    rfl
  refine ⟨⟨sumError, ?_⟩, wordError, ?_⟩
  · rcases error_ends_longest_expression _ sumError with longest | ⟨-, spaces⟩
    · exact longest
    · exact absurd spaces (by decide)
  · rcases error_ends_longest_expression _ wordError with ⟨front, begins, -⟩ | ⟨none, -⟩
    · exact absurd begins (no_prefix_of_failed word front)
    · exact none

end Descent.Arithmetic
