import Descent.Proofs.Arithmetic.Exactness
import Descent.Proofs.Arithmetic.Grouping
import Descent.Proofs.Arithmetic.Recognition
import Descent.Proofs.Writing

/-!
Regrouping sums and products. A chain of one associative operator has the same exact value whichever
way it groups, and each level of the grammar has one such operator. So the two groupings of a text
without differences and quotients differ at most in where they overflow. Main statement: the values of
such a text agree; and if it is a sum throughout, both groupings give the sum of its literals, or
overflow if that is no word.
-/

namespace Descent.Arithmetic

open Descent.Parser

variable {associativity : Associativity} {level : Bool}

/-- The operator of a level that may be regrouped. -/
def associativeOperator : Bool → Operator
  | false => .multiply
  | true => .add

/-- Every operator among the tokens may be regrouped. -/
def Regroupable (tokens : List Token) : Prop :=
  ∀ operator : Operator, .sign operator.symbol ∈ tokens → operator = .add ∨ operator = .multiply

theorem Regroupable.of_subset {tokens others : List Token} (regroupable : Regroupable tokens)
    (subset : others ⊆ tokens) : Regroupable others :=
  fun operator member => regroupable operator (subset member)

theorem Regroupable.operator_eq {tokens : List Token} {operator : Operator}
    (regroupable : Regroupable tokens) (member : .sign operator.symbol ∈ tokens)
    (same : operator.isAdditive = level) : operator = associativeOperator level := by
  rcases regroupable operator member with rfl | rfl
  · subst same
    rfl
  · subst same
    rfl

theorem associative_operator_assoc (level : Bool) (first second third : Int) :
    (associativeOperator level).exact ((associativeOperator level).exact first second) third =
      (associativeOperator level).exact first ((associativeOperator level).exact second third) := by
  cases level with
  | false => exact Int.mul_assoc first second third
  | true => exact Int.add_assoc first second third

/-! What a chain is worth, before it is grouped and after. -/

def linkValues (others : List (Operator × Expr)) : List Int := others.map fun link => link.2.exact

theorem exact_left {operator : Operator} (first : Expr) (links : List (Operator × Expr))
    (uniform : ∀ link ∈ links, link.1 = operator) :
    (nestLeft first links).exact =
      (linkValues links.reverse).foldl operator.exact first.exact := by
  induction links with
  | nil => rfl
  | cons link earlier ih =>
      obtain ⟨same, uniform⟩ := List.forall_mem_cons.mp uniform
      rw [nestLeft, Expr.exact, same, ih uniform, List.reverse_cons, linkValues, linkValues,
        List.map_append, List.map_singleton, List.foldl_concat]

theorem exact_right {operator : Operator} [Std.Associative operator.exact] (first : Expr)
    (others : List (Operator × Expr)) (uniform : ∀ link ∈ others, link.1 = operator) :
    (nestRight first others).exact = (linkValues others).foldl operator.exact first.exact := by
  induction others generalizing first with
  | nil => rfl
  | cons link others ih =>
      obtain ⟨same, uniform⟩ := List.forall_mem_cons.mp uniform
      calc (nestRight first (link :: others)).exact
          = operator.exact first.exact (nestRight link.2 others).exact := by
            rw [nestRight, Expr.exact, same]
        _ = operator.exact first.exact
              ((linkValues others).foldl operator.exact link.2.exact) := by rw [ih _ uniform]
        _ = (linkValues (link :: others)).foldl operator.exact first.exact :=
            List.foldl_assoc.symm

/-- All groupings of a chain of one associative operator have the same exact value. -/
theorem exact_group (associativity : Associativity) (first : Expr)
    (others : List (Operator × Expr))
    (uniform : ∀ link ∈ others, link.1 = associativeOperator level) :
    (associativity.group first others).exact =
      (linkValues others).foldl (associativeOperator level).exact first.exact := by
  have associative : Std.Associative (associativeOperator level).exact :=
    ⟨associative_operator_assoc level⟩
  cases associativity with
  | right => exact exact_right first others uniform
  | left =>
      rw [Associativity.group, exact_left first others.reverse, List.reverse_reverse]
      exact fun link member => uniform link (List.mem_reverse.mp member)

theorem links_uniform {tokens : List Token} {first : Expr} {others : List (Operator × Expr)}
    (chain : Derives associativity (chainRule level) tokens first others)
    (regroupable : Regroupable tokens) :
    ∀ link ∈ others, link.1 = associativeOperator level := by
  revert regroupable
  apply chain_induction (motive := fun tokens _ others => Regroupable tokens →
    ∀ link ∈ others, link.1 = associativeOperator level) _ _ chain
  · intro tokens expr _ _
    exact List.forall_mem_nil _
  · intro tokens expr following next others operator _ same ih regroupable
    have here := regroupable.operator_eq (List.mem_append_right _ List.mem_cons_self) same
    have beyond : following ⊆ tokens ++ .sign operator.symbol :: following :=
      List.Subset.trans (List.subset_cons_self _ _) (List.subset_append_right _ _)
    exact List.forall_mem_cons.mpr ⟨here, ih (regroupable.of_subset beyond)⟩

/-- Chains of the same tokens whose operands have the same values have the same value, whichever
ways they group. -/
theorem regrouped_exact (level : Bool) {other : Associativity} {tokens : List Token}
    {first again : Expr} {others links : List (Operator × Expr)} (regroupable : Regroupable tokens)
    (chain : Derives associativity (chainRule level) tokens first others)
    (regrouped : Derives other (chainRule level) tokens again links)
    (same : again.exact = first.exact) (values : linkValues links = linkValues others) :
    (other.group again links).exact = (associativity.group first others).exact := by
  rw [exact_group other again links (links_uniform regrouped regroupable),
    exact_group associativity first others (links_uniform chain regroupable), same, values]

/-- What one associativity derives, the other derives too, with operands of the same values. -/
theorem regroups (other : Associativity) {rule : Rule} {tokens : List Token} {first : Expr}
    {others : List (Operator × Expr)} (derives : Derives associativity rule tokens first others)
    (regroupable : Regroupable tokens) :
    ∃ again links, Derives other rule tokens again links ∧ again.exact = first.exact ∧
      linkValues links = linkValues others := by
  induction derives with
  | number value => exact ⟨_, [], .number value, rfl, rfl⟩
  | @parentheses tokens first others inner ih =>
      have inside : Regroupable tokens := regroupable.of_subset (by simp)
      obtain ⟨again, links, regrouped, same, values⟩ := ih inside
      have worth := regrouped_exact true inside inner regrouped same values
      exact ⟨_, [], .parentheses regrouped, worth, rfl⟩
  | lastFactor operand ih =>
      obtain ⟨again, links, regrouped, same, values⟩ := ih regroupable
      cases factor_others regrouped
      exact ⟨again, [], .lastFactor regrouped, same, rfl⟩
  | @nextFactor tokens following _ _ _ _ operand level chain ih ihChain =>
      have front : Regroupable tokens := regroupable.of_subset (by simp)
      have back : Regroupable following := regroupable.of_subset (by simp)
      obtain ⟨again, links, regrouped, same, -⟩ := ih front
      cases factor_others regrouped
      obtain ⟨next, further, continued, sameNext, values⟩ := ihChain back
      exact ⟨again, _, .nextFactor regrouped level continued, same,
        congrArg₂ List.cons sameNext values⟩
  | lastTerm operand ih =>
      obtain ⟨again, links, regrouped, same, values⟩ := ih regroupable
      have worth := regrouped_exact false regroupable operand regrouped same values
      exact ⟨_, [], .lastTerm regrouped, worth, rfl⟩
  | @nextTerm tokens following _ _ _ _ _ operand level chain ih ihChain =>
      have front : Regroupable tokens := regroupable.of_subset (by simp)
      have back : Regroupable following := regroupable.of_subset (by simp)
      obtain ⟨again, links, regrouped, same, values⟩ := ih front
      have worth := regrouped_exact false front operand regrouped same values
      obtain ⟨next, further, continued, sameNext, valuesNext⟩ := ihChain back
      exact ⟨_, _, .nextTerm regrouped level continued, worth,
        congrArg₂ List.cons sameNext valuesNext⟩

theorem language_regroups (other : Associativity) {tokens : List Token} {expr : Expr}
    (phrase : Rule.expr.Language associativity tokens expr) (regroupable : Regroupable tokens) :
    ∃ regrouped, Rule.expr.Language other tokens regrouped ∧ regrouped.exact = expr.exact := by
  obtain ⟨first, others, chain, rfl⟩ := phrase
  obtain ⟨again, links, regrouped, same, values⟩ := regroups other chain regroupable
  exact ⟨_, ⟨again, links, regrouped, rfl⟩,
    regrouped_exact true regroupable chain regrouped same values⟩

/-! The numbers and operators of an expression are those of its tokens. -/

/-- What a token adds to an expression, unless it is a parenthesis. -/
def item? : Token → Option (Int ⊕ Operator)
  | .word _ => none
  | .numeral value => some (.inl value)
  | .sign char => (Operator.ofChar? char).map .inr

theorem item_symbol (operator : Operator) : item? (.sign operator.symbol) = some (.inr operator) := by
  rw [item?, operator.of_char_symbol]
  rfl

theorem in_order_of_derives {rule : Rule} {tokens : List Token} {first : Expr}
    {others : List (Operator × Expr)} (derives : Derives associativity rule tokens first others) :
    first.inOrder ++ linksInOrder others = tokens.filterMap item? := by
  induction derives with
  | number value => rfl
  | parentheses inner ih =>
      rw [in_order_group, ih, linksInOrder, List.append_nil, List.filterMap_append]
      exact (List.append_nil _).symm
  | lastFactor operand ih => exact ih
  | nextFactor operand level chain ih ihChain =>
      rw [linksInOrder, List.append_nil] at ih
      rw [List.filterMap_append, List.filterMap_cons_some (item_symbol _), ← ih, ← ihChain]
      rfl
  | lastTerm operand ih =>
      rw [in_order_group, linksInOrder, List.append_nil]
      exact ih
  | nextTerm operand level chain ih ihChain =>
      rw [List.filterMap_append, List.filterMap_cons_some (item_symbol _), ← ih, ← ihChain,
        in_order_group]
      rfl

theorem in_order_of_language {tokens : List Token} {expr : Expr}
    (phrase : Rule.expr.Language associativity tokens expr) :
    expr.inOrder = tokens.filterMap item? := by
  obtain ⟨first, others, derives, rfl⟩ := phrase
  rw [in_order_group]
  exact in_order_of_derives derives

/-! Sums. No part of a sum exceeds the sum, so there is an overflow just if the sum is no word. -/

/-- The numbers and operators that a sum of literals is made of. -/
def IsSummand : Int ⊕ Operator → Prop
  | .inl value => 0 ≤ value ∧ FitsWord value
  | .inr operator => operator = .add

def itemSum (items : List (Int ⊕ Operator)) : Int :=
  (items.filterMap Sum.getLeft?).foldl (· + ·) 0

/-- The sum of the literals among the tokens. -/
def literalSum (tokens : List Token) : Int :=
  (tokens.filterMap fun token => token.numeral?.map Int.ofNat).foldl (· + ·) 0

theorem item_sum_append (items others : List (Int ⊕ Operator)) :
    itemSum (items ++ others) = itemSum items + itemSum others := by
  unfold itemSum
  rw [List.filterMap_append, List.foldl_append]
  generalize (items.filterMap Sum.getLeft?).foldl (· + ·) 0 = before
  have shifted : (others.filterMap Sum.getLeft?).foldl (· + ·) (before + 0) =
      before + (others.filterMap Sum.getLeft?).foldl (· + ·) 0 := List.foldl_assoc
  rw [Int.add_zero] at shifted
  exact shifted

theorem item_sum_eq (tokens : List Token) : itemSum (tokens.filterMap item?) = literalSum tokens := by
  have literal (token : Token) :
      (item? token).bind Sum.getLeft? = token.numeral?.map Int.ofNat := by
    cases token with
    | word text => rfl
    | numeral value => rfl
    | sign char =>
        rw [item?]
        cases Operator.ofChar? char with
        | none => rfl
        | some operator => rfl
  unfold itemSum literalSum
  rw [List.filterMap_filterMap, funext literal]

theorem parts_fit {left right : Int} (nonneg : 0 ≤ left) (nonnegRight : 0 ≤ right)
    (fits : FitsWord (left + right)) : FitsWord left ∧ FitsWord right := by
  unfold FitsWord at *
  omega

namespace Expr

variable {expr : Expr}

theorem sum_parts {operator : Operator} {lhs rhs : Expr}
    (sums : ∀ item ∈ (binary operator lhs rhs).inOrder, IsSummand item) :
    (∀ item ∈ lhs.inOrder, IsSummand item) ∧ operator = .add ∧
      ∀ item ∈ rhs.inOrder, IsSummand item := by
  obtain ⟨left, others⟩ := List.forall_mem_append.mp sums
  exact ⟨left, List.forall_mem_cons.mp others⟩

theorem exact_sum (sums : ∀ item ∈ expr.inOrder, IsSummand item) :
    expr.exact = itemSum expr.inOrder := by
  induction expr with
  | number value => exact (Int.zero_add value).symm
  | binary operator lhs rhs ih ihRight =>
      obtain ⟨left, rfl, right⟩ := sum_parts sums
      rw [inOrder, item_sum_append, exact, ih left, ihRight right]
      rfl

theorem sum_nonneg (sums : ∀ item ∈ expr.inOrder, IsSummand item) : 0 ≤ expr.exact := by
  induction expr with
  | number value => exact (sums _ List.mem_cons_self).1
  | binary operator lhs rhs ih ihRight =>
      obtain ⟨left, rfl, right⟩ := sum_parts sums
      exact Int.add_nonneg (ih left) (ihRight right)

theorem fault_add (lhs rhs : Expr) :
    (binary .add lhs rhs).fault? =
      if FitsWord (binary .add lhs rhs).exact then none else some .overflow := by
  rw [fault_binary, if_neg (by simp)]
  rfl

theorem first_fault_sum (sums : ∀ item ∈ expr.inOrder, IsSummand item) :
    expr.firstFault? = if FitsWord expr.exact then none else some .overflow := by
  induction expr with
  | number value => exact (if_pos (sums _ List.mem_cons_self).2).symm
  | binary operator lhs rhs ih ihRight =>
      obtain ⟨left, rfl, right⟩ := sum_parts sums
      rw [first_fault_binary, fault_add, ih left, ihRight right]
      by_cases fits : FitsWord (binary .add lhs rhs).exact
      · obtain ⟨fitsLeft, fitsRight⟩ := parts_fit (sum_nonneg left) (sum_nonneg right) fits
        rw [if_pos fits, if_pos fitsLeft, if_pos fitsRight]
        rfl
      · rw [if_neg fits]
        -- a part that is no word overflows before the sum does
        split
        · split
          · rfl
          · rfl
        · rfl

/-- A sum of literals evaluates to its exact value, or overflows. -/
theorem evaluate_sum (sums : ∀ item ∈ expr.inOrder, IsSummand item) :
    expr.evaluate =
      if itemSum expr.inOrder ≤ 0x7fffffffffffffff then .ok (itemSum expr.inOrder)
      else .error .overflow := by
  have nonneg := sum_nonneg sums
  rw [evaluate_eq, first_fault_sum sums, ← exact_sum sums]
  by_cases fits : FitsWord expr.exact
  · rw [if_pos fits, if_pos (Int.le_of_lt_add_one fits.2)]
    rfl
  · have exceeds : ¬ expr.exact ≤ 0x7fffffffffffffff := by
      unfold FitsWord at fits
      omega
    rw [if_neg fits, if_neg exceeds]
    rfl

end Expr

/-! Texts without the signs that cannot be regrouped. -/

theorem regroupable_of_input {input : List Char} {tokens : List Token}
    (reads : lexicon.Reads input tokens []) (noDifference : '-' ∉ input)
    (noQuotient : '/' ∉ input) : Regroupable tokens := by
  intro operator member
  have written : operator.symbol ∈ input := reads.sign_mem member
  cases operator with
  | add => exact .inl rfl
  | subtract => exact absurd written noDifference
  | multiply => exact .inr rfl
  | divide => exact absurd written noQuotient

theorem summands_of_input {input : List Char} {tokens : List Token}
    (reads : lexicon.Reads input tokens []) (regroupable : Regroupable tokens)
    (noProduct : '*' ∉ input) : ∀ item ∈ tokens.filterMap item?, IsSummand item := by
  intro item found
  obtain ⟨token, member, same⟩ := List.mem_filterMap.mp found
  cases token with
  | word text => exact absurd same (by simp [item?])
  | numeral value =>
      cases same
      have admitted : value ≤ 0x7fffffffffffffff := of_decide_eq_true (reads.holds _ member)
      refine ⟨Int.natCast_nonneg value, ?_⟩
      unfold FitsWord
      omega
  | sign char =>
      obtain ⟨operator, known, rfl⟩ := Option.map_eq_some_iff.mp same
      rw [of_char_eq_some] at known
      subst known
      rcases regroupable operator member with rfl | rfl
      · rfl
      · exact absurd (reads.sign_mem member) noProduct

theorem evaluate_parsed {calculator : Calculator} {input : List Char} {expr : Expr}
    (parsed : calculator.parse input = .ok expr) :
    calculator.evaluate input = expr.evaluate.mapError .fault := by
  simp only [Calculator.evaluate, parsed]
  cases expr.evaluate with
  | error cause => rfl
  | ok value => rfl

theorem value_exact {calculator : Calculator} {input : List Char} {expr : Expr} {value : Int}
    (parsed : calculator.parse input = .ok expr) (run : calculator.evaluate input = .ok value) :
    value = expr.exact := by
  rw [evaluate_parsed parsed, Expr.evaluate_eq] at run
  cases fault : expr.firstFault? with
  | some cause =>
      rw [fault] at run
      contradiction
  | none =>
      rw [fault] at run
      exact (Except.ok.inj run).symm

/-- Both calculators parse what one of them parses, to expressions of the same exact value. -/
theorem parsed_by_all {calculator : Calculator} {input : List Char} {expr : Expr}
    (parsed : calculator.parse input = .ok expr) (noDifference : '-' ∉ input)
    (noQuotient : '/' ∉ input) :
    ∃ tokens, lexicon.Reads input tokens [] ∧ Regroupable tokens ∧
      ∀ other : Calculator, ∃ regrouped, other.parse input = .ok regrouped ∧
        regrouped.exact = expr.exact ∧ regrouped.inOrder = tokens.filterMap item? := by
  obtain ⟨tokens, reads, phrase⟩ := derives_of_parse parsed
  have regroupable := regroupable_of_input reads noDifference noQuotient
  refine ⟨tokens, reads, regroupable, ?_⟩
  intro other
  obtain ⟨regrouped, again, same⟩ := language_regroups other.associativity phrase regroupable
  exact ⟨regrouped, parse_of_derives reads again, same, in_order_of_language again⟩

theorem grouping_keeps_sums_and_products {input : List Char}
    (accepted : ∃ (calculator : Calculator) (expr : Expr), calculator.parse input = .ok expr)
    (noDifference : '-' ∉ input) (noQuotient : '/' ∉ input) :
    (∀ right left, Calculator.evaluate ⟨.right⟩ input = .ok right →
      Calculator.evaluate ⟨.left⟩ input = .ok left → right = left) ∧
    ('*' ∉ input → ∃ tokens, lexicon.tokens? input = some tokens ∧
      ∀ calculator : Calculator, calculator.evaluate input =
        if literalSum tokens ≤ 0x7fffffffffffffff then .ok (literalSum tokens)
        else .error (.fault .overflow)) := by
  obtain ⟨calculator, expr, parsed⟩ := accepted
  obtain ⟨tokens, reads, regroupable, all⟩ := parsed_by_all parsed noDifference noQuotient
  constructor
  · intro right left runRight runLeft
    obtain ⟨exprRight, parsedRight, sameRight, -⟩ := all ⟨.right⟩
    obtain ⟨exprLeft, parsedLeft, sameLeft, -⟩ := all ⟨.left⟩
    calc right = exprRight.exact := value_exact parsedRight runRight
      _ = exprLeft.exact := sameRight.trans sameLeft.symm
      _ = left := (value_exact parsedLeft runLeft).symm
  · intro noProduct
    refine ⟨tokens, Lexicon.tokens_iff.mpr reads, ?_⟩
    intro other
    obtain ⟨regrouped, parsedOther, -, order⟩ := all other
    have sums := summands_of_input reads regroupable noProduct
    rw [← order] at sums
    rw [evaluate_parsed parsedOther, Expr.evaluate_sum sums, order, item_sum_eq]
    split
    · rfl
    · rfl

/-- A product has one value, and a sum beyond a word overflows wherever its parentheses stand. -/
theorem product_and_sum_are_regrouped :
    (∃ right left, Calculator.evaluate ⟨.right⟩ "2*(3+4)*5".toList = .ok right ∧
      Calculator.evaluate ⟨.left⟩ "2*(3+4)*5".toList = .ok left ∧ right = left) ∧
    ∀ calculator : Calculator, calculator.evaluate "(9223372036854775807+0)+1".toList =
      .error (.fault .overflow) := by
  have product : Calculator.parse ⟨.right⟩ "2*(3+4)*5".toList =
      .ok (.binary .multiply (.number 2) (.binary .multiply
        (.binary .add (.number 3) (.number 4)) (.number 5))) := by decide +kernel
  have right : Calculator.evaluate ⟨.right⟩ "2*(3+4)*5".toList = .ok 70 := by decide +kernel
  have left : Calculator.evaluate ⟨.left⟩ "2*(3+4)*5".toList = .ok 70 := by decide +kernel
  have sum : Calculator.parse ⟨.right⟩ "(9223372036854775807+0)+1".toList =
      .ok (.binary .add (.binary .add (.number 9223372036854775807) (.number 0)) (.number 1)) := by
    decide +kernel
  have written : lexicon.tokens? "(9223372036854775807+0)+1".toList =
      some [.sign '(', .numeral 9223372036854775807, .sign '+', .numeral 0, .sign ')', .sign '+',
        .numeral 1] := by decide +kernel
  constructor
  · have same := (grouping_keeps_sums_and_products ⟨_, _, product⟩ (by decide) (by decide)).1
    exact ⟨70, 70, right, left, same 70 70 right left⟩
  · have whole := (grouping_keeps_sums_and_products ⟨_, _, sum⟩ (by decide) (by decide)).2
    obtain ⟨tokens, found, evaluates⟩ := whole (by decide)
    cases written.symm.trans found
    exact evaluates

end Descent.Arithmetic
