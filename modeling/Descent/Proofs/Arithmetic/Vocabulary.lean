import Descent.Proofs.Arithmetic.Chain
import Descent.Proofs.Parser.Yield

/-!
The vocabulary of arithmetic. The parsers for parentheses and for the operators of a level take
exactly the tokens of the lexicon, and a number is its numeral token without the spaces in front.
-/

namespace Descent.Arithmetic

open Descent.Parser Text

variable {input place rest : List Char} {operator : Operator} {level : Bool}

theorem signs_plain : ∀ char ∈ lexicon.signs, char.isLower = false ∧ char.isDigit = false := by
  have checked : lexicon.signs.all (fun char => !char.isLower && !char.isDigit) = true := rfl
  intro char known
  simpa using List.all_eq_true.mp checked char known

theorem symbol_known (operator : Operator) : operator.symbol ∈ lexicon.signs := by
  cases operator <;> decide

theorem of_char_eq_some {char : Char} :
    Operator.ofChar? char = some operator ↔ char = operator.symbol := by
  constructor
  · intro found
    unfold Operator.ofChar? at found
    split at found <;> cases found <;> rfl
  · intro same
    subst same
    exact operator.of_char_symbol

theorem symbol_injective {other : Operator} (same : operator.symbol = other.symbol) :
    operator = other := by
  have read := operator.of_char_symbol
  rw [same, other.of_char_symbol] at read
  exact (Option.some.inj read).symm

/-- The operator that a token is, if it is one of the level. -/
def operator? (level : Bool) : Token → Option Operator
  | .sign char => (Operator.ofChar? char).filter fun operator => operator.isAdditive == level
  | _ => none

theorem operator_eq_some {token : Token} :
    operator? level token = some operator ↔
      token = .sign operator.symbol ∧ operator.isAdditive = level := by
  cases token with
  | word text => simp [operator?]
  | numeral value => simp [operator?]
  | sign char =>
      rw [operator?, Option.filter_eq_some_iff, of_char_eq_some, beq_iff_eq, Token.sign.injEq]

theorem operator_matched {found : Operator} :
    operatorParser operator input = .matched found rest ↔
      input = operator.symbol :: rest ∧ operator = found := by
  rw [operatorParser, map_matched]
  constructor
  · intro given
    obtain ⟨char, scanned, same⟩ := given
    obtain ⟨rfl, passes⟩ := satisfy_matched.mp scanned
    rw [beq_iff_eq.mp passes]
    exact ⟨rfl, same⟩
  · intro given
    obtain ⟨rfl, same⟩ := given
    exact ⟨_, satisfy_matched.mpr ⟨rfl, beq_self_eq_true _⟩, same⟩

theorem operators_matched {first second : Operator} (differs : first ≠ second) :
    (operatorParser first <|> operatorParser second) input = .matched operator rest ↔
      input = operator.symbol :: rest ∧ (first = operator ∨ second = operator) := by
  rw [or_else_matched, operator_matched, operator_matched]
  constructor
  · intro given
    rcases given with ⟨start, same⟩ | ⟨-, start, same⟩
    · rw [← same]
      exact ⟨start, .inl rfl⟩
    · rw [← same]
      exact ⟨start, .inr rfl⟩
  · intro given
    rcases given with ⟨start, same | same⟩
    · exact .inl ⟨same ▸ start, same⟩
    · right
      refine ⟨?_, same ▸ start, same⟩
      cases run : operatorParser first input with
      | failed stop => exact ⟨stop, rfl⟩
      | matched found last =>
          obtain ⟨again, -⟩ := operator_matched.mp run
          rw [start, ← same, List.cons.injEq] at again
          exact absurd (symbol_injective again.1.symm) differs

theorem level_matched :
    levelOperator level input = .matched operator rest ↔
      input = operator.symbol :: rest ∧ operator.isAdditive = level := by
  cases level with
  | false =>
      rw [levelOperator, multiplicative, operators_matched (by decide)]
      cases operator <;> simp [Operator.isAdditive]
  | true =>
      rw [levelOperator, additive, operators_matched (by decide)]
      cases operator <;> simp [Operator.isAdditive]

theorem level_takes (level : Bool) :
    Takes lexicon (token (levelOperator level)) (operator? level) := by
  apply sign_takes signs_plain
  · intro token operator passed
    exact ⟨_, (operator_eq_some.mp passed).1⟩
  · intro input operator rest
    rw [level_matched]
    constructor
    · intro given
      obtain ⟨start, same⟩ := given
      exact ⟨_, symbol_known operator, start, operator_eq_some.mpr ⟨rfl, same⟩⟩
    · intro given
      obtain ⟨char, -, start, passed⟩ := given
      obtain ⟨sign, same⟩ := operator_eq_some.mp passed
      cases sign
      exact ⟨start, same⟩

theorem level_reads (run : token (levelOperator level) input = .matched operator rest) :
    operator.isAdditive = level ∧ lexicon.Reads input [.sign operator.symbol] rest := by
  obtain ⟨token, passed, reads⟩ := (level_takes level).reads run
  obtain ⟨rfl, same⟩ := operator_eq_some.mp passed
  exact ⟨same, reads⟩

theorem level_yields (same : operator.isAdditive = level)
    (reads : lexicon.Reads place [.sign operator.symbol] rest) :
    (token (levelOperator level)).Yields place operator rest :=
  (level_takes level).yields (operator_eq_some.mpr ⟨rfl, same⟩) reads

theorem level_refuses
    (other : ∀ operator : Operator, operator.isAdditive = level →
      ∀ middle, lexicon.next? place ≠ some (.sign operator.symbol, middle)) :
    (token (levelOperator level)).Refuses place := by
  apply (level_takes level).refuses
  intro token middle first
  cases passed : operator? level token with
  | none => rfl
  | some operator =>
      obtain ⟨rfl, same⟩ := operator_eq_some.mp passed
      exact absurd first (other operator same middle)

theorem character_takes (char : Char) (known : char ∈ lexicon.signs) :
    Takes lexicon (token (character char)) fun token =>
      if token = .sign char then some char else none := by
  apply sign_takes signs_plain
  · intro token found passed
    exact ⟨char, (Option.ite_none_right_eq_some.mp passed).1⟩
  · intro input found rest
    rw [character, satisfy_matched, beq_iff_eq]
    constructor
    · intro given
      obtain ⟨start, rfl⟩ := given
      exact ⟨found, known, start, if_pos rfl⟩
    · intro given
      obtain ⟨next, -, start, passed⟩ := given
      obtain ⟨same, found⟩ := Option.ite_none_right_eq_some.mp passed
      cases same
      cases found
      exact ⟨start, rfl⟩

theorem character_reads (char : Char) (known : char ∈ lexicon.signs) {found : Char}
    (run : token (character char) input = .matched found rest) :
    lexicon.Reads input [.sign char] rest := by
  obtain ⟨token, passed, reads⟩ := (character_takes char known).reads run
  obtain ⟨rfl, -⟩ := Option.ite_none_right_eq_some.mp passed
  exact reads

theorem character_yields (char : Char) (known : char ∈ lexicon.signs)
    (reads : lexicon.Reads place [.sign char] rest) :
    (token (character char)).Yields place char rest :=
  (character_takes char known).yields (if_pos rfl) reads

theorem character_refuses (char : Char) (known : char ∈ lexicon.signs)
    (other : ∀ middle, lexicon.next? place ≠ some (.sign char, middle)) :
    (token (character char)).Refuses place := by
  apply (character_takes char known).refuses
  intro token middle first
  apply if_neg
  intro same
  subst same
  exact other middle first

theorem number_matched {expr : Expr} :
    number input = .matched expr rest ↔
      ∃ value, nat (.signed 64) input = .matched value rest ∧ expr = .number value := by
  rw [number, map_matched]
  constructor
  · intro given
    obtain ⟨value, run, rfl⟩ := given
    obtain ⟨found, middle, scanned, ended⟩ := bind_matched.mp run
    obtain ⟨rfl, rfl⟩ := pure_matched.mp ended
    exact ⟨found, scanned, rfl⟩
  · intro given
    obtain ⟨value, scanned, rfl⟩ := given
    exact ⟨value, bind_matched.mpr ⟨value, rest, scanned, pure_matched.mpr ⟨rfl, rfl⟩⟩, rfl⟩

theorem admits_eq (value : Nat) :
    lexicon.admits value = decide (value ≤ (IntegerType.signed 64).greatest) := rfl

/-- A number starts without spaces in front, and what follows it is what follows its token. -/
theorem number_next {expr : Expr} (run : number input = .matched expr rest) :
    trim input = input ∧ ∃ value : Nat, expr = .number value ∧
      lexicon.next? input = some (.numeral value, rest) := by
  obtain ⟨value, scanned, rfl⟩ := number_matched.mp run
  have trimmed := magnitude_trimmed scanned
  rw [nat, ← trimmed, magnitude_matched admits_eq] at scanned
  exact ⟨trimmed, value, rfl, scanned⟩

theorem number_reads {expr : Expr} (run : number input = .matched expr rest) :
    ∃ value : Nat, expr = .number value ∧ lexicon.Reads input [.numeral value] rest := by
  obtain ⟨-, value, same, first⟩ := number_next run
  exact ⟨value, same, .single first⟩

theorem number_failed {stop : List Char} (run : number input = .failed stop) : stop = input := by
  have failed : nat (.signed 64) input = .failed stop := by
    cases scanned : nat (.signed 64) input with
    | failed place => simpa [number, scanned] using run
    | matched value rest => simp [number, scanned] at run
  rw [nat, magnitude_apply] at failed
  split at failed
  · contradiction
  · exact (Outcome.failed.inj failed).symm

theorem number_yields {value : Nat} (reads : lexicon.Reads place [.numeral value] rest) :
    (spaced number).Yields place (.number value) rest := by
  intro input same
  obtain ⟨middle, first, ended⟩ := (reads.congr_left same.symm).uncons
  rw [spaced_apply]
  have scanned := (magnitude_matched admits_eq).mpr first
  exact ⟨middle, number_matched.mpr ⟨value, scanned, rfl⟩, ended.same_place⟩

end Descent.Arithmetic
