import Descent.Arithmetic.Calculator
import Descent.Proofs.Arithmetic.Soundness

/-!
The calculator accepts exactly the expressions of its grammar. Every phrase is read wherever it
stands in a text, as long as no operator that belongs to it follows. Main statement: the complete
parses are the derivations, with their trees grouped as the associativity says.
-/

namespace Descent.Arithmetic

open Descent.Parser

variable {associativity : Associativity} {level : Bool} {place middle rest : List Char}

/-- The operators that go on with a phrase of the rule. -/
def Rule.Extends : Rule → Operator → Prop
  | .factor, _ => False
  | .term, operator => operator.isAdditive = false
  | .expr, _ => True

/-- No operator at this place goes on with a phrase of the rule. -/
def Rule.Closes (rule : Rule) (place : List Char) : Prop :=
  ∀ operator : Operator, rule.Extends operator →
    ∀ middle, lexicon.next? place ≠ some (.sign operator.symbol, middle)

theorem level_extends {operator : Operator} (same : operator.isAdditive = level) :
    (chainRule level).Extends operator := by
  cases level with
  | false => exact same
  | true => trivial

theorem factor_closes (place : List Char) : Rule.factor.Closes place :=
  fun _ extending => extending.elim

/-- Where a chain ends, its last operand ends. -/
theorem operand_closes (level : Bool) (closes : (chainRule level).Closes place) :
    (operandRule level).Closes place := by
  cases level with
  | false => exact factor_closes place
  | true => exact fun operator _ => closes operator trivial

/-- An operand ends before an operator of its chain, as that operator binds less tightly. -/
theorem operand_closes_before {operator : Operator} {tokens : List Token}
    (same : operator.isAdditive = level)
    (reads : lexicon.Reads place (.sign operator.symbol :: tokens) rest) :
    (operandRule level).Closes place := by
  intro other extending
  apply reads.next_ne
  intro sign
  rw [Token.sign.injEq] at sign
  cases symbol_injective sign
  cases level with
  | false => exact extending
  | true => exact absurd (same.symm.trans extending) (by decide)

theorem chain_refuses (closes : (chainRule level).Closes place) :
    (token (levelOperator level)).Refuses place := by
  apply level_refuses
  intro operator same
  exact closes operator (level_extends same)

theorem chained_single (level : Bool) {operand : Parser Expr} {expr : Expr}
    (parsed : (spaced operand).Yields place expr rest)
    (closes : (chainRule level).Closes rest) :
    (chained operand (levelOperator level)).Yields place (expr, []) rest :=
  parsed.pair ((chain_refuses closes).bind _).many

/-- A match of an operand and an operator, in front of a chain that is matched already. -/
theorem chained_next (level : Bool) {operand : Parser Expr} (slices : operand.Slices)
    {input following : List Char} {expr next : Expr} {others : List (Operator × Expr)}
    {operator : Operator} (first : spaced operand input = .matched expr middle)
    (signed : token (levelOperator level) middle = .matched operator following)
    (chain : chained operand (levelOperator level) following = .matched (next, others) rest) :
    chained operand (levelOperator level) input =
      .matched (expr, (operator, next) :: others) rest := by
  obtain ⟨left, second, continued⟩ := pair_matched.mp chain
  have linked : link operand (levelOperator level) middle = .matched (operator, next) left :=
    pair_matched.mpr ⟨following, signed, second⟩
  have shorter := link_consumes slices (level_consumes level) _ _ _ linked
  exact pair_matched.mpr ⟨middle, first, many_next linked shorter continued⟩

theorem chained_longer (level : Bool) {operand : Parser Expr} (slices : operand.Slices)
    {expr next : Expr} {others : List (Operator × Expr)} {operator : Operator}
    {following : List Char}
    (parsed : (spaced operand).Yields place expr middle)
    (signed : (token (levelOperator level)).Yields middle operator following)
    (more : (chained operand (levelOperator level)).Yields following (next, others) rest) :
    (chained operand (levelOperator level)).Yields place (expr, (operator, next) :: others)
      rest := by
  intro input same
  obtain ⟨left, first, reached⟩ := parsed input same
  obtain ⟨after, sign, gone⟩ := signed left reached
  obtain ⟨last, chain, final⟩ := more after gone
  exact ⟨last, chained_next level slices first sign chain, final⟩

theorem chain_yields (level : Bool) {first : Expr} {others : List (Operator × Expr)}
    (parsed : (chained (parser associativity (operandRule level)) (levelOperator level)).Yields
      place (first, others) rest) :
    (parser associativity (chainRule level)).Yields place (associativity.group first others)
      rest := by
  intro input same
  obtain ⟨last, run, reached⟩ := parsed input same
  have alike := chain_alike associativity level input
  rw [run] at alike
  generalize parser associativity (chainRule level) input = outcome at alike ⊢
  cases alike with
  | matched grouped place =>
      cases grouped
      exact ⟨_, rfl, place.trans reached⟩

/-- An expression ends before a closing parenthesis. -/
theorem closes_before_parenthesis (reads : lexicon.Reads place [.sign ')'] rest) :
    Rule.expr.Closes place := by
  intro operator _
  apply reads.next_ne
  cases operator <;> decide

theorem factor_parentheses {expr : Expr} {inner : List Char}
    (opened : lexicon.Reads place [.sign '('] middle)
    (parsed : (parser associativity .expr).Yields middle expr inner)
    (closed : lexicon.Reads inner [.sign ')'] rest) :
    (parser associativity .factor).Yields place expr rest := by
  rw [factor_eq, factorOf]
  exact .or_else_first (Yields.between (character_yields '(' (by decide) opened) parsed
    (character_yields ')' (by decide) closed))

theorem factor_number {value : Nat} (reads : lexicon.Reads place [.numeral value] rest) :
    (spaced (parser associativity .factor)).Yields place (.number value) rest := by
  have unopened := character_refuses '(' (by decide) (reads.next_ne (by simp))
  rw [factor_eq, factorOf, spaced_or_else]
  exact .or_else_second (unopened.bind _).spaced (number_yields reads)

/-- Where an operand and a chain are read up to what closes them, both are read with an operator in
between. -/
theorem chained_between (level : Bool) {tokens following : List Token} {expr next : Expr}
    {others : List (Operator × Expr)} {operator : Operator} (same : operator.isAdditive = level)
    (operand : ∀ place rest, lexicon.Reads place tokens rest → (operandRule level).Closes rest →
      (spaced (parser associativity (operandRule level))).Yields place expr rest)
    (chain : ∀ place rest, lexicon.Reads place following rest → (chainRule level).Closes rest →
      (chained (parser associativity (operandRule level)) (levelOperator level)).Yields place
        (next, others) rest)
    (reads : lexicon.Reads place (tokens ++ .sign operator.symbol :: following) rest)
    (closes : (chainRule level).Closes rest) :
    (chained (parser associativity (operandRule level)) (levelOperator level)).Yields place
      (expr, (operator, next) :: others) rest := by
  obtain ⟨middle, front, back⟩ := reads.split
  obtain ⟨start, sign, tail⟩ := back.cons
  have parsed := operand place middle front (operand_closes_before same back)
  have more := chain start rest tail closes
  exact chained_longer level (parser_slices _ _) parsed (level_yields same sign) more

/-- The parser that belongs to a rule reads its phrase between two places. -/
def Rule.Parses (associativity : Associativity) (rule : Rule) (place : List Char) (first : Expr)
    (others : List (Operator × Expr)) (rest : List Char) : Prop :=
  match rule with
  | .factor => others = [] ∧ (spaced (parser associativity .factor)).Yields place first rest
  | .term => (chained (parser associativity .factor) multiplicative).Yields place (first, others)
      rest
  | .expr => (chained (parser associativity .term) additive).Yields place (first, others) rest

theorem parses_of_derives {rule : Rule} {tokens : List Token} {first : Expr}
    {others : List (Operator × Expr)} (derives : Derives associativity rule tokens first others) :
    ∀ place rest, lexicon.Reads place tokens rest → rule.Closes rest →
      rule.Parses associativity place first others rest := by
  induction derives with
  | number value =>
      intro place rest reads closes
      exact ⟨rfl, factor_number reads⟩
  | parentheses inner ih =>
      intro place rest reads closes
      obtain ⟨start, last, opened, middle, closed⟩ := reads.enclosed
      have parsed := ih start last middle (closes_before_parenthesis closed)
      exact ⟨rfl, (factor_parentheses opened (chain_yields true parsed) closed).spaced⟩
  | lastFactor operand ih =>
      intro place rest reads closes
      obtain ⟨-, parsed⟩ := ih place rest reads (operand_closes false closes)
      exact chained_single false parsed closes
  | nextFactor operand same chain ih ihChain =>
      intro place rest reads closes
      refine chained_between false same ?_ ihChain reads closes
      intro place rest front ended
      exact (ih place rest front ended).2
  | lastTerm operand ih =>
      intro place rest reads closes
      have parsed := ih place rest reads (operand_closes true closes)
      exact chained_single true (chain_yields false parsed).spaced closes
  | nextTerm operand same chain ih ihChain =>
      intro place rest reads closes
      refine chained_between true same ?_ ihChain reads closes
      intro place rest front ended
      exact (chain_yields false (ih place rest front ended)).spaced

/-- A phrase of a chain is read with the tree that it groups to. -/
theorem chain_language_yields (level : Bool) {tokens : List Token} {expr : Expr}
    (phrase : (chainRule level).Language associativity tokens expr)
    (reads : lexicon.Reads place tokens rest) (closes : (chainRule level).Closes rest) :
    (parser associativity (chainRule level)).Yields place expr rest := by
  obtain ⟨first, others, derives, rfl⟩ := phrase
  have parsed := parses_of_derives derives place rest reads closes
  cases level with
  | false => exact chain_yields false parsed
  | true => exact chain_yields true parsed

theorem operand_yields (level : Bool) {tokens : List Token} {expr : Expr}
    (phrase : (operandRule level).Language associativity tokens expr)
    (reads : lexicon.Reads place tokens rest) (closes : (operandRule level).Closes rest) :
    (spaced (parser associativity (operandRule level))).Yields place expr rest := by
  cases level with
  | false => exact (parses_of_derives (factor_derives phrase) place rest reads closes).2
  | true => exact (chain_language_yields false phrase reads closes).spaced

theorem nothing_closes (rule : Rule) : rule.Closes [] := by
  intro operator _ middle
  rw [Lexicon.next_nil rfl]
  exact (Option.some_ne_none _).symm

theorem derives_of_parse {calculator : Calculator} {input : List Char} {expr : Expr}
    (parsed : calculator.parse input = .ok expr) :
    ∃ tokens, lexicon.Reads input tokens [] ∧
      Rule.expr.Language calculator.associativity tokens expr := by
  obtain ⟨rest, run, blank⟩ := complete_ok.mp parsed
  obtain ⟨tokens, reads, phrase⟩ := parser_recognizes _ .expr input expr rest run
  exact ⟨tokens, reads.congr_right blank, phrase⟩

theorem parse_of_derives {calculator : Calculator} {input : List Char} {tokens : List Token}
    {expr : Expr} (reads : lexicon.Reads input tokens [])
    (phrase : Rule.expr.Language calculator.associativity tokens expr) :
    calculator.parse input = .ok expr := by
  have parsed : (parser calculator.associativity .expr).Yields input expr [] :=
    chain_language_yields true phrase reads (nothing_closes .expr)
  obtain ⟨rest, run, blank⟩ := parsed input rfl
  exact complete_ok.mpr ⟨rest, run, blank⟩

theorem calculator_accepts_exactly_grammar (calculator : Calculator) (input : List Char)
    (expr : Expr) :
    calculator.parse input = .ok expr ↔ Expresses calculator.associativity input expr := by
  rw [Calculator.parse, complete_ok]
  constructor
  · intro given
    obtain ⟨rest, run, blank⟩ := given
    obtain ⟨tokens, reads, first, others, derives, grouped⟩ :=
      parser_recognizes calculator.associativity .expr input expr rest run
    exact ⟨tokens, first, others, Lexicon.tokens_iff.mpr (reads.congr_right blank), derives,
      grouped⟩
  · intro given
    obtain ⟨tokens, first, others, found, derives, rfl⟩ := given
    have closes : Rule.expr.Closes [] := by
      intro operator _ middle
      rw [Lexicon.next_nil rfl]
      simp
    have parsed := parses_of_derives derives input [] (Lexicon.tokens_iff.mp found) closes
    obtain ⟨rest, run, blank⟩ := chain_yields true parsed input rfl
    exact ⟨rest, run, blank⟩

end Descent.Arithmetic
