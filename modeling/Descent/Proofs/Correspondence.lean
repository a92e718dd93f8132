import Descent.Arithmetic.Calculator
import Descent.Proofs.Arithmetic.Chain
import Descent.Proofs.Script.Unfolding
import Descent.Proofs.Text.Runs
import Descent.Proofs.Writing
import Descent.Script.Program

/-!
Arithmetic in scripts. On texts of digits, signs of arithmetic and spaces, an expression of a script
can neither be conditional nor hold a name, so its rules are those of the calculator that groups to
the right: a sum is an expression, a product a term, and the factors are the same. The rules match
the same parts of a text, spaces aside, and fail at the same places. Main statement: both parse such
a text to corresponding trees, or refuse it at the same offset, as long as its numerals fit a signed
word.
-/

namespace Descent

open Descent.Parser Text

/-- The tree stands for the expression in scripts. -/
inductive Arithmetic.Image : Arithmetic.Expr → Script.Tree → Prop where
  | number (value : Nat) : Image (.number value) (.number value)
  | binary (operator : Operator) {lhs rhs : Expr} {left right : Script.Tree}
      (first : Image lhs left) (second : Image rhs right) :
      Image (.binary operator lhs rhs) (.node operator.symbol.toString [left, right])

namespace Script

variable {input : List Char}

/-- No name and no keyword starts behind the spaces. -/
def Wordless (input : List Char) : Prop := ∀ char ∈ (trim input).head?, char.isLower = false

theorem identifier_failed (wordless : Wordless input) :
    token identifier input = .failed (trim input) := by
  rw [token_apply]
  cases start : trim input with
  | nil => rw [identifier_nil, Outcome.and_then_failed]
  | cons char rest =>
      have other : char.isLower = false := wordless char (by rw [start]; rfl)
      rw [identifier_cons, other]
      rfl

theorem variable_name_failed (wordless : Wordless input) :
    variableName input = .failed (trim input) := by
  rw [variableName, verify, identifier_failed wordless]

theorem keyword_failed (text : String) (wordless : Wordless input) :
    keyword text input = .failed (trim input) := by
  rw [keyword, verify, identifier_failed wordless]

theorem expression_eq_sum (wordless : Wordless input) :
    parser .expression input = parser .sum input := by
  have conditional : parser .conditional input = .failed (trim input) := by
    rw [parser_eq, productions, conditionalOf, bind_apply, keyword_failed "if" wordless,
      Outcome.and_then_failed]
  have unfolded : parser .expression = (parser .conditional <|> parser .sum) := parser_eq .expression
  rw [unfolded, or_else_apply, conditional, Outcome.or_else_failed]

theorem factor_of_wordless (wordless : Wordless input) :
    parser .factor input =
      (parenthesized (parser .expression) input).orElse fun _ =>
        ((Tree.number <$> natural) input).orElse fun _ => .failed (trim input) := by
  have call : parser .call input = .failed (trim input) := by
    rw [parser_eq, productions, callOf, bind_apply, variable_name_failed wordless,
      Outcome.and_then_failed]
  have name : (Tree.name <$> variableName) input = .failed (trim input) := by
    rw [map_apply, variable_name_failed wordless, Outcome.map_failed]
  rw [parser_eq, productions, factorOf]
  simp only [choice_cons, choice_singleton, or_else_apply, call, name, Outcome.or_else_failed]

end Script

namespace Arithmetic

/-- A text of digits, signs of arithmetic and spaces, in which all runs of digits fit a word. -/
structure Readable (text : List Char) : Prop where
  plain : ∀ char ∈ text, char.isDigit = true ∨ char ∈ signs ∨ isSpace char = true
  bounded : ∀ run, run <:+: text → (∀ char ∈ run, char.isDigit = true) →
    decimalValue run ≤ (IntegerType.signed 64).greatest

variable {input other : List Char}

theorem Readable.suffix {rest : List Char} (readable : Readable input) (kept : rest <:+ input) :
    Readable rest where
  plain char member := readable.plain char (kept.subset member)
  bounded run inside := readable.bounded run (inside.trans kept.isInfix)

theorem Readable.wordless (readable : Readable input) (same : trim input = trim other) :
    Script.Wordless other := by
  intro char start
  have member : char ∈ trim input := List.mem_of_mem_head? (same ▸ start)
  rcases readable.plain char ((trim_suffix input).subset member) with digit | sign | space
  · exact digit_not_lower digit
  · have checked : signs.all (fun char => !char.isLower) = true := rfl
    simpa using List.all_eq_true.mp checked char sign
  · exact (not_word_char (space_not_word_char space)).1

/-- The rule of scripts for what a rule of arithmetic matches. -/
def counterpart : Rule → Script.Rule
  | .factor => .factor
  | .term => .product
  | .expr => .sum

def levelSymbol : Bool → Parser String
  | false => symbol "*" <|> symbol "/"
  | true => symbol "+" <|> symbol "-"

theorem sign_alike (char : Char) (same : trim input = trim other) :
    (token (character char) input).Alike
      (fun found text => found = char ∧ text = String.singleton char)
      (symbol (String.singleton char) other) := by
  rw [symbol, token_apply, token_apply, same]
  cases trim other with
  | nil =>
      rw [literal_nil]
      exact .failed []
  | cons first rest =>
      rw [literal_cons, character, satisfy]
      by_cases equal : char = first
      · subst equal
        simp only [beq_self_eq_true, if_true, Outcome.and_then_matched]
        exact .matched ⟨rfl, rfl⟩ rfl
      · simp only [beq_iff_eq, equal, Ne.symm equal, if_false, Outcome.and_then_failed]
        exact .failed _

/-- The text is the symbol of the operator. -/
def Spells (operator : Operator) (text : String) : Prop := text = operator.symbol.toString

theorem operator_alike (operator : Operator) (same : trim input = trim other) :
    (token (operatorParser operator) input).Alike Spells
      (symbol (String.singleton operator.symbol) other) := by
  have mapped : token (operatorParser operator) input =
      (token (character operator.symbol) input).map fun _ => operator := by
    rw [token_apply, token_apply, operatorParser, map_apply]
    cases character operator.symbol (trim input) <;> rfl
  have alike := sign_alike operator.symbol same
  rw [mapped]
  generalize token (character operator.symbol) input = outcome,
    symbol (String.singleton operator.symbol) other = outcome' at alike ⊢
  cases alike with
  | failed stop => exact .failed stop
  | matched values place => exact .matched values.2 place

theorem token_or_else {α : Type} (first second : Parser α) (input : List Char) :
    token (first <|> second) input =
      (token first input).orElse fun _ => token second input := by
  rw [token_apply, token_apply, or_else_apply]
  cases first (trim input) with
  | failed stop => simp only [Outcome.or_else_failed, Outcome.and_then_failed, token_apply]
  | matched value rest => rfl

theorem level_alike (level : Bool) (same : trim input = trim other) :
    (token (levelOperator level) input).Alike Spells (levelSymbol level other) := by
  cases level with
  | false =>
      rw [levelOperator, multiplicative, token_or_else, levelSymbol, or_else_apply]
      exact (operator_alike .multiply same).or_else (operator_alike .divide same)
  | true =>
      rw [levelOperator, additive, token_or_else, levelSymbol, or_else_apply]
      exact (operator_alike .add same).or_else (operator_alike .subtract same)

theorem number_apply (input : List Char) :
    number input = (nat (.signed 64) input).map fun value => .number value := by
  rw [number, map_apply, bind_apply]
  cases nat (.signed 64) input <;> rfl

/-- Where a numeral fits the smaller type, it does not matter which type it is read for. -/
theorem number_alike (readable : Readable input) (same : trim input = trim other) :
    (number (trim input)).Alike Image
      (((Script.Tree.number <$> natural) other).orElse fun _ => .failed (trim other)) := by
  have fits : decimalValue ((trim input).takeWhile Char.isDigit) ≤
      (IntegerType.signed 64).greatest := by
    apply readable.bounded
    · exact (List.takeWhile_prefix _).isInfix.trans (trim_suffix input).isInfix
    · exact fun _ => List.mem_takeWhile_imp
  have less : (IntegerType.signed 64).greatest ≤ (IntegerType.unsigned 64).greatest := by decide
  rw [number_apply, map_apply, natural, token_apply, ← same, nat, nat, magnitude_apply,
    magnitude_apply]
  simp only [fits, fits.trans less, and_true]
  split
  · exact .matched (.number _) (trim_trim _).symm
  · exact .failed _

theorem level_rule (level : Bool) :
    parser .right (chainRule level) =
        rightChain (parser .right (operandRule level)) (levelOperator level)
          (parser .right (chainRule level)) ∧
      Script.parser (counterpart (chainRule level)) =
        Script.chainOf (Script.parser (counterpart (operandRule level))) (levelSymbol level)
          (Script.parser (counterpart (chainRule level))) := by
  cases level with
  | false => exact ⟨parser_eq .right .term, Script.parser_eq .product⟩
  | true => exact ⟨parser_eq .right .expr, Script.parser_eq .sum⟩

theorem chain_trim (level : Bool) (input : List Char) :
    parser .right (chainRule level) (trim input) = parser .right (chainRule level) input := by
  rw [(level_rule level).1, right_chain_apply, right_chain_apply, trim_trim]

/-- The rule matches behind the spaces of a text what its counterpart matches in the text. -/
def Matches (rule : Rule) (input : List Char) : Prop :=
  Readable input → ∀ other, trim input = trim other →
    (parser .right rule (trim input)).Alike Image (Script.parser (counterpart rule) other)

/-- Where no word starts, an expression of a script is a sum. -/
theorem Matches.expression (summed : Matches .expr input) (readable : Readable input)
    (same : trim input = trim other) :
    (parser .right .expr input).Alike Image (Script.parser .expression other) := by
  have trimmed : parser .right .expr (trim input) = parser .right .expr input := chain_trim true input
  rw [Script.expression_eq_sum (readable.wordless same), ← trimmed]
  exact summed readable other same

/-- One more operator, and a tail that its counterpart matches on what is left. -/
theorem continued_alike (level : Bool) (readable : Readable input)
    (tails : ∀ rest : List Char, rest.length < input.length → Matches (chainRule level) rest)
    (same : trim input = trim other) :
    (Parser.sequence (token (levelOperator level), parser .right (chainRule level)) input).Alike
      (fun pair row => Spells pair.1 row.1 ∧ Image pair.2 row.2)
      (Parser.sequence (levelSymbol level, Script.parser (counterpart (chainRule level)))
        other) := by
  rw [pair_apply, pair_apply]
  apply (level_alike level same).and_then
  intro sign middle text middle' signed _ spelled reached
  have shorter := token_consumes (level_consumes level) input sign middle signed
  have behind := (token_slices (level_slices level)).matched_suffix signed
  have alike := tails middle shorter (readable.suffix behind) middle' reached
  rw [chain_trim] at alike
  apply alike.and_then
  intro rhs rest right last _ _ image place
  exact .matched ⟨spelled, image⟩ place

theorem chain_matches (level : Bool) (input : List Char)
    (operands : ∀ rest : List Char, rest.length ≤ input.length →
      Matches (operandRule level) rest) : Matches (chainRule level) input := by
  induction length : input.length using Nat.strongRecOn generalizing input with
  | ind bound ih =>
      intro readable other same
      obtain ⟨unfolded, unfolded'⟩ := level_rule level
      rw [unfolded, unfolded', right_chain_apply, Script.chain_apply, trim_trim]
      apply (operands input (Nat.le_refl _) readable other same).and_then
      intro lhs rest left rest' run _ image place
      have kept := ((parser_slices _ _).matched_suffix run).trans (trim_suffix input)
      have tails : ∀ middle : List Char, middle.length < rest.length →
          Matches (chainRule level) middle := by
        intro middle shorter
        have less := kept.length_le
        refine ih middle.length (by omega) middle ?_ rfl
        intro below short
        exact operands below (by omega)
      have continued := continued_alike level (readable.suffix kept) tails place
      generalize
        Parser.sequence (token (levelOperator level), parser .right (chainRule level)) rest =
          outcome,
        Parser.sequence (levelSymbol level, Script.parser (counterpart (chainRule level))) rest' =
          outcome' at continued ⊢
      cases continued with
      | failed stop => exact .matched image place
      | matched values ended =>
          obtain ⟨spelled, image'⟩ := values
          refine .matched ?_ ((trim_trim _).trans ended)
          rw [spelled]
          exact .binary _ image image'

theorem factor_matches (input : List Char)
    (inner : ∀ shorter : List Char, shorter.length < input.length → Matches .expr shorter) :
    Matches .factor input := by
  intro readable other same
  rw [factor_eq, factorOf, or_else_apply, counterpart,
    Script.factor_of_wordless (readable.wordless same)]
  apply Outcome.Alike.or_else
  · rw [Script.parenthesized, between_apply, between_apply]
    apply (sign_alike '(' ((trim_trim input).trans same)).and_then
    intro sign middle text middle' signed _ _ reached
    have shorter := (character_consumes '(') _ sign middle signed
    have less := (trim_suffix input).length_le
    have kept := ((character_slices '(').matched_suffix signed).trans (trim_suffix input)
    apply ((inner middle (by omega)).expression (readable.suffix kept) reached).and_then
    intro expr rest tree rest' _ _ image place
    apply (sign_alike ')' place).and_then
    intro _ last _ last' _ _ _ ended
    exact .matched image ended
  · exact number_alike readable same

theorem rule_matches (rule : Rule) (input : List Char) : Matches rule input := by
  induction rule, input using rule_induction with
  | factor input inner => exact factor_matches input inner
  | chain level input operands => exact chain_matches level input operands

end Arithmetic

theorem calculator_agrees_with_scripts (source : List Char)
    (plain : ∀ char ∈ source,
      char.isDigit = true ∨ char ∈ Arithmetic.signs ∨ isSpace char = true)
    (bounded : ∀ run, IsDigitRun source run →
      decimalValue run ≤ (IntegerType.signed 64).greatest) :
    (∃ error, Arithmetic.Calculator.parse ⟨.right⟩ source = .error error ∧
        Script.parseExpression source = .error error) ∨
      ∃ expr tree, Arithmetic.Calculator.parse ⟨.right⟩ source = .ok expr ∧
        Script.parseExpression source = .ok tree ∧ Arithmetic.Image expr tree := by
  have readable : Arithmetic.Readable source :=
    ⟨plain, fun run inside digits => run_bounded bounded digits inside⟩
  exact complete_alike ((Arithmetic.rule_matches .expr source).expression readable rfl)

theorem product_agrees_with_scripts :
    Arithmetic.Calculator.parse ⟨.right⟩ "2 * (30 + 4)".toList =
        .ok (.binary .multiply (.number 2) (.binary .add (.number 30) (.number 4))) ∧
      Script.parseExpression "2 * (30 + 4)".toList =
        .ok (.node "*" [.number 2, .node "+" [.number 30, .number 4]]) := by
  have calculated : Arithmetic.Calculator.parse ⟨.right⟩ "2 * (30 + 4)".toList =
      .ok (.binary .multiply (.number 2) (.binary .add (.number 30) (.number 4))) :=
    complete_ok.mpr ⟨[], by decide +kernel, rfl⟩
  refine ⟨calculated, ?_⟩
  have checked : "2 * (30 + 4)".toList.all (fun char =>
      char.isDigit || (Arithmetic.signs.contains char || isSpace char)) = true := by decide
  have plain : ∀ char ∈ "2 * (30 + 4)".toList,
      char.isDigit = true ∨ char ∈ Arithmetic.signs ∨ isSpace char = true := by
    intro char member
    simpa only [Bool.or_eq_true, List.contains_iff_mem] using List.all_eq_true.mp checked char member
  have short : decimalValue "2 * (30 + 4)".toList ≤ (IntegerType.signed 64).greatest := by decide
  have bounded (run : List Char) (inside : IsDigitRun "2 * (30 + 4)".toList run) :
      decimalValue run ≤ (IntegerType.signed 64).greatest := by
    obtain ⟨-, front, back, same, -⟩ := inside
    exact (decimal_value_within ⟨front, back, same.symm⟩).trans short
  rcases calculator_agrees_with_scripts _ plain bounded with
    ⟨error, refused, -⟩ | ⟨expr, tree, parsed, scripted, image⟩
  · rw [calculated] at refused
    cases refused
  · rw [calculated] at parsed
    cases parsed
    rw [scripted]
    cases image with
    | binary _ first second =>
        cases first
        cases second with
        | binary _ first second =>
            cases first
            cases second
            rfl

end Descent
