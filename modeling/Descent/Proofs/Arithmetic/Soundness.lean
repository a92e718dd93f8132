import Descent.Proofs.Arithmetic.Vocabulary

/-!
What a rule of arithmetic matches is a phrase of the grammar, grouped as the associativity says.
Both associativities are treated at once, through the chains that their rules read.
-/

namespace Descent.Arithmetic

open Descent.Parser

variable {associativity : Associativity} {level : Bool}

/-- The tokens derive from the rule, and the expression is the grouped tree of that derivation. -/
def Rule.Language (associativity : Associativity) (rule : Rule) (tokens : List Token)
    (expr : Expr) : Prop :=
  ∃ first others, Derives associativity rule tokens first others ∧
    expr = associativity.group first others

/-- What the parser matches on this input is a phrase of the language. -/
def RecognizesAt (parser : Parser Expr) (language : List Token → Expr → Prop)
    (input : List Char) : Prop :=
  ∀ expr rest, parser input = .matched expr rest →
    ∃ tokens, lexicon.Reads input tokens rest ∧ language tokens expr

theorem group_nil (associativity : Associativity) (first : Expr) :
    associativity.group first [] = first := by
  cases associativity with
  | right => rfl
  | left => rfl

theorem factor_others {tokens : List Token} {first : Expr} {others : List (Operator × Expr)}
    (derives : Derives associativity .factor tokens first others) : others = [] := by
  cases derives with
  | number value => rfl
  | parentheses inner => rfl

theorem factor_derives {tokens : List Token} {expr : Expr}
    (phrase : Rule.factor.Language associativity tokens expr) :
    Derives associativity .factor tokens expr [] := by
  obtain ⟨first, others, derives, rfl⟩ := phrase
  cases factor_others derives
  rw [group_nil]
  exact derives

theorem derives_single {tokens : List Token} {expr : Expr}
    (phrase : (operandRule level).Language associativity tokens expr) :
    Derives associativity (chainRule level) tokens expr [] := by
  cases level with
  | false => exact .lastFactor (factor_derives phrase)
  | true =>
      obtain ⟨first, others, derives, rfl⟩ := phrase
      exact .lastTerm derives

theorem derives_longer {tokens following : List Token} {expr next : Expr}
    {others : List (Operator × Expr)} {operator : Operator}
    (phrase : (operandRule level).Language associativity tokens expr)
    (same : operator.isAdditive = level)
    (chain : Derives associativity (chainRule level) following next others) :
    Derives associativity (chainRule level) (tokens ++ .sign operator.symbol :: following) expr
      ((operator, next) :: others) := by
  cases level with
  | false => exact .nextFactor (factor_derives phrase) same chain
  | true =>
      obtain ⟨first, links, derives, rfl⟩ := phrase
      exact .nextTerm derives same chain

/-- Induction along a chain of either level, from its last operand on. -/
theorem chain_induction {motive : List Token → Expr → List (Operator × Expr) → Prop}
    (single : ∀ tokens expr, (operandRule level).Language associativity tokens expr →
      motive tokens expr [])
    (longer : ∀ tokens expr following next others (operator : Operator),
      (operandRule level).Language associativity tokens expr → operator.isAdditive = level →
      motive following next others →
      motive (tokens ++ .sign operator.symbol :: following) expr ((operator, next) :: others))
    {tokens : List Token} {first : Expr} {others : List (Operator × Expr)}
    (chain : Derives associativity (chainRule level) tokens first others) :
    motive tokens first others := by
  cases level with
  | false =>
      generalize shown : chainRule false = rule at chain
      induction chain with
      | lastFactor operand ih => exact single _ _ ⟨_, [], operand, (group_nil _ _).symm⟩
      | nextFactor operand same chain ih ihChain =>
          exact longer _ _ _ _ _ _ ⟨_, [], operand, (group_nil _ _).symm⟩ same (ihChain shown)
      | _ => cases shown
  | true =>
      generalize shown : chainRule true = rule at chain
      induction chain with
      | lastTerm operand ih => exact single _ _ ⟨_, _, operand, rfl⟩
      | nextTerm operand same chain ih ihChain =>
          exact longer _ _ _ _ _ _ ⟨_, _, operand, rfl⟩ same (ihChain shown)
      | _ => cases shown

/-- The operator of a link is read before an operand of the same level. -/
theorem link_reads {operand : Parser Expr} {input rest : List Char} {sign : Operator}
    {value : Expr}
    (recognizes : ∀ middle : List Char, middle.length ≤ input.length →
      RecognizesAt operand ((operandRule level).Language associativity) middle)
    (run : link operand (levelOperator level) input = .matched (sign, value) rest) :
    ∃ tokens, lexicon.Reads input (.sign sign.symbol :: tokens) rest ∧
      sign.isAdditive = level ∧ (operandRule level).Language associativity tokens value := by
  obtain ⟨middle, signed, parsed⟩ := pair_matched.mp run
  obtain ⟨same, readsSign⟩ := level_reads signed
  have shorter := token_consumes (level_consumes level) _ _ _ signed
  have kept := (Text.trim_suffix middle).length_le
  rw [spaced_apply] at parsed
  obtain ⟨tokens, reads, phrase⟩ := recognizes (Text.trim middle) (by omega) value rest parsed
  have here := reads.congr_left (Text.trim_trim middle)
  exact ⟨tokens, readsSign.append here, same, phrase⟩

/-- Whatever operands a repetition of links adds to a first one, the whole is a chain. -/
theorem links_read {operand : Parser Expr} (bound : Nat)
    (recognizes : ∀ middle : List Char, middle.length ≤ bound →
      RecognizesAt operand ((operandRule level).Language associativity) middle)
    (input : List Char) (short : input.length ≤ bound) {tokens : List Token} {first : Expr}
    (phrase : (operandRule level).Language associativity tokens first) :
    ∃ more, lexicon.Reads input more (advance (link operand (levelOperator level)) input).2 ∧
      Derives associativity (chainRule level) (tokens ++ more) first
        (advance (link operand (levelOperator level)) input).1 := by
  fun_induction advance (link operand (levelOperator level)) input generalizing tokens first with
  | case1 input value rest run shorter following ih =>
      obtain ⟨found, reads, same, operands⟩ :=
        link_reads (fun middle less => recognizes middle (by omega)) run
      obtain ⟨more, others, chain⟩ := ih (by omega) operands
      exact ⟨.sign value.1.symbol :: found ++ more, reads.append others,
        derives_longer phrase same chain⟩
  | case2 input value rest run stuck =>
      refine ⟨[], .refl input, ?_⟩
      rw [List.append_nil]
      exact derives_single phrase
  | case3 input stop run =>
      refine ⟨[], .refl input, ?_⟩
      rw [List.append_nil]
      exact derives_single phrase

theorem chained_recognizes {operand : Parser Expr} (slices : operand.Slices)
    (input : List Char)
    (recognizes : ∀ middle : List Char, middle.length ≤ input.length →
      RecognizesAt operand ((operandRule level).Language associativity) middle)
    {first : Expr} {others : List (Operator × Expr)} {rest : List Char}
    (run : chained operand (levelOperator level) input = .matched (first, others) rest) :
    ∃ tokens, lexicon.Reads input tokens rest ∧
      Derives associativity (chainRule level) tokens first others := by
  obtain ⟨middle, parsed, continued⟩ := pair_matched.mp run
  rw [spaced_apply] at parsed
  have leading := (Text.trim_suffix input).length_le
  have kept := (slices.matched_suffix parsed).length_le
  obtain ⟨tokens, reads, phrase⟩ := recognizes (Text.trim input) leading first middle parsed
  obtain ⟨more, readsMore, chain⟩ :=
    links_read input.length recognizes middle (by omega) phrase
  rw [many_matched.mp continued] at readsMore chain
  exact ⟨tokens ++ more, (reads.congr_left (Text.trim_trim input)).append readsMore, chain⟩

theorem factor_recognizes {expr : Parser Expr} (input : List Char)
    (inner : ∀ shorter : List Char, shorter.length < input.length →
      RecognizesAt expr (Rule.expr.Language associativity) shorter) :
    RecognizesAt (factorOf expr) (Rule.factor.Language associativity) input := by
  intro value rest run
  rcases Parser.or_else_matched.mp run with found | ⟨-, found⟩
  · obtain ⟨_, middle, last, _, opened, parsed, closed⟩ := between_matched.mp found
    have shorter := character_consumes '(' input _ middle opened
    obtain ⟨tokens, reads, first, others, derives, rfl⟩ := inner middle shorter value last parsed
    have front := character_reads '(' (by decide) opened
    have back := character_reads ')' (by decide) closed
    exact ⟨_, front.append (reads.append back), _, [], .parentheses derives,
      (group_nil _ _).symm⟩
  · obtain ⟨numeral, rfl, reads⟩ := number_reads found
    exact ⟨_, reads, _, [], .number numeral, (group_nil _ _).symm⟩

theorem parser_recognizes (associativity : Associativity) (rule : Rule) (input : List Char) :
    RecognizesAt (parser associativity rule) (rule.Language associativity) input := by
  induction rule, input using rule_induction with
  | factor input inner =>
      rw [factor_eq]
      exact factor_recognizes input inner
  | chain level input operands =>
      intro expr rest run
      have alike := chain_alike associativity level input
      rw [run] at alike
      generalize chain : chained (parser associativity (operandRule level)) (levelOperator level)
        input = outcome at alike
      cases alike with
      | @matched _ links _ last grouped place =>
          obtain ⟨tokens, reads, derives⟩ :=
            chained_recognizes (parser_slices _ _) input operands chain
          exact ⟨tokens, reads.congr_right place.symm, links.1, links.2, derives, grouped⟩

end Descent.Arithmetic
