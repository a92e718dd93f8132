import Descent.Proofs.Arithmetic.LongestPrefix
import Descent.Proofs.Parser.Offset
import Descent.Proofs.Sentences
import Mathlib.Data.List.Chain

/-!
Literals that no word holds. The lexicon of the calculator has no token for such a literal, so of an
expression that holds one only the tokens in front of it are read, and what they leave unfinished is
given up again. Main statement: the error is at the end of the longest expression in front of the first
such literal, and at the literal itself only where the text starts with it.
-/

namespace Descent

open Text

namespace Token

/-- The token is no numeral, or one that a word of 64 bits holds. -/
def InRange : Token → Prop
  | numeral value => value ≤ (IntegerType.signed 64).greatest
  | _ => True

def EndsOperand : Token → Prop
  | word _ => False
  | numeral _ => True
  | sign char => char = ')'

end Token

/-- Behind these tokens and the spaces that follow, the text goes on at the offset. -/
def Lexicon.GoesOnAt (lexicon : Lexicon) (input : List Char) (tokens : List Token)
    (offset : Nat) : Prop :=
  ∃ front place, front ++ place = input ∧ byteLength front = offset ∧
    lexicon.Reads input tokens place ∧ ∀ char ∈ place.head?, isSpace char = false

namespace Arithmetic

open Descent.Parser

variable {associativity : Associativity} {input middle rest : List Char} {token : Token}
  {tokens : List Token}

/-! The bounded lexicon has the tokens of the unbounded one that are in range. -/

theorem token_bounded {lexeme : List Char} :
    lexicon.token? lexeme = some token ↔
      unboundedLexicon.token? lexeme = some token ∧ token.InRange := by
  cases lexeme with
  | nil => simp [Lexicon.token?]
  | cons char rest =>
      simp only [Lexicon.token?, lexicon, unboundedLexicon, decide_eq_true_eq, Bool.false_eq_true,
        if_false, if_true]
      split
      · simp
      · split
        · constructor
          · intro found
            obtain ⟨fits, same⟩ := Option.ite_none_right_eq_some.mp found
            cases same
            exact ⟨rfl, fits⟩
          · intro given
            obtain ⟨⟨⟩, fits⟩ := given
            exact if_pos fits
        · constructor
          · intro found
            obtain ⟨known, same⟩ := Option.ite_none_right_eq_some.mp found
            cases same
            exact ⟨found, trivial⟩
          · exact fun given => given.1

theorem next_bounded :
    lexicon.next? input = some (token, middle) ↔
      unboundedLexicon.next? input = some (token, middle) ∧ token.InRange := by
  simp only [Lexicon.next?, Option.map_eq_some_iff, Prod.mk.injEq, token_bounded]
  constructor
  · rintro ⟨found, ⟨read, fits⟩, rfl, left⟩
    exact ⟨⟨found, read, rfl, left⟩, fits⟩
  · rintro ⟨⟨found, read, rfl, left⟩, fits⟩
    exact ⟨found, ⟨read, fits⟩, rfl, left⟩

theorem reads_bounded :
    lexicon.Reads input tokens rest ↔
      unboundedLexicon.Reads input tokens rest ∧ ∀ token ∈ tokens, token.InRange := by
  constructor
  · intro reads
    induction reads with
    | done same => exact ⟨.done same, by simp⟩
    | next first others ih =>
        obtain ⟨found, fits⟩ := next_bounded.mp first
        exact ⟨.next found ih.1, List.forall_mem_cons.mpr ⟨fits, ih.2⟩⟩
  · intro given
    obtain ⟨reads, fit⟩ := given
    induction reads with
    | done same => exact .done same
    | next first others ih =>
        obtain ⟨fits, more⟩ := List.forall_mem_cons.mp fit
        exact .next (next_bounded.mpr ⟨first, fits⟩) (ih more)

/-! No expression is followed by a numeral within an expression. -/

/-- No numeral stands where an operand has just ended. -/
def Apart (left right : Token) : Prop := left.EndsOperand → right.numeral? = none

/-- Tokens that end with an operand, and in which no numeral follows an operand. -/
structure Operates (tokens : List Token) : Prop where
  apart : tokens.IsChain Apart
  ends : ∃ token ∈ tokens.getLast?, token.EndsOperand

theorem symbol_ends_nothing (operator : Operator) :
    ¬ (Token.sign operator.symbol).EndsOperand := by
  unfold Token.EndsOperand
  cases operator <;> decide

theorem Operates.join {following : List Token} {operator : Operator} (front : Operates tokens)
    (back : Operates following) : Operates (tokens ++ .sign operator.symbol :: following) where
  apart := by
    apply front.apart.append
    · apply back.apart.cons
      intro right _ ended
      exact absurd ended (symbol_ends_nothing operator)
    · rintro left - right ⟨⟩ -
      rfl
  ends := by
    obtain ⟨token, last, ended⟩ := back.ends
    refine ⟨token, ?_, ended⟩
    rw [List.getLast?_append, List.getLast?_cons, Option.mem_def.mp last]
    rfl

theorem Operates.enclose (inner : Operates tokens) :
    Operates (.sign '(' :: tokens ++ [.sign ')']) where
  apart := by
    have opens : ¬ (Token.sign '(').EndsOperand := by
      unfold Token.EndsOperand
      decide
    apply (inner.apart.cons _).append (.singleton _)
    · rintro left - right ⟨⟩ -
      rfl
    · intro right _ ended
      exact absurd ended opens
  ends := ⟨.sign ')', by rw [List.getLast?_concat]; rfl, rfl⟩

theorem operates_of_derives {rule : Rule} {first : Expr} {others : List (Operator × Expr)}
    (derives : Derives associativity rule tokens first others) : Operates tokens := by
  induction derives with
  | number value => exact ⟨.singleton _, _, rfl, trivial⟩
  | parentheses inner ih => exact ih.enclose
  | lastFactor operand ih | lastTerm operand ih => exact ih
  | nextFactor operand same chain ih ihChain | nextTerm operand same chain ih ihChain =>
      exact ih.join ihChain

/-- A numeral behind an expression makes no expression. -/
theorem not_before_numeral {rule : Rule} {value : Nat} {back : List Token} {expr first : Expr}
    {others : List (Operator × Expr)} (phrase : Rule.expr.Language associativity tokens expr) :
    ¬ Derives associativity rule (tokens ++ .numeral value :: back) first others := by
  intro longer
  obtain ⟨_, _, derives, -⟩ := phrase
  obtain ⟨token, last, ended⟩ := (operates_of_derives derives).ends
  obtain ⟨-, -, apart⟩ := List.isChain_append.mp (operates_of_derives longer).apart
  have none := apart token last (.numeral value) rfl ended
  contradiction

/-! Where the calculator stops. -/

/-- The longest expression that the tokens start with, or no tokens if they start with none. -/
structure IsLeading (associativity : Associativity) (tokens kept : List Token) : Prop where
  starts : kept <+: tokens
  phrase : kept = [] ∨ ∃ expr, Rule.expr.Language associativity kept expr
  longest : ∀ other expr, other <+: tokens → Rule.expr.Language associativity other expr →
    other <+: kept

/-- The calculator reads an expression, or nothing at all, and no expression reaches further. -/
structure Calculator.StopsAt (calculator : Calculator) (input : List Char) (kept : List Token)
    (rest : List Char) : Prop where
  reads : lexicon.Reads input kept rest
  phrase : kept = [] ∨ ∃ expr, Rule.expr.Language calculator.associativity kept expr
  beyond : ∀ other expr place, Rule.expr.Language calculator.associativity other expr →
    lexicon.Reads input other place → trim rest <:+ trim place
  error : trim rest ≠ [] →
    calculator.parse input = .error ⟨byteLength input - byteLength (trim rest)⟩

theorem stops_at (calculator : Calculator) (input : List Char) :
    ∃ kept rest, calculator.StopsAt input kept rest := by
  have covers := expression_covers calculator.associativity
  cases run : calculator.expression input with
  | failed stop =>
      have start := expression_failed run
      refine ⟨[], input, .refl input, .inl rfl, ?_, ?_⟩
      · intro other expr place phrase reads
        obtain ⟨value, last, matched, -⟩ := covers _ _ phrase _ _ reads input rfl
        cases run.symm.trans matched
      · intro _
        rw [Calculator.parse, complete_of_failed run, start]
  | matched expr rest =>
      obtain ⟨kept, reads, phrase⟩ := parser_recognizes _ .expr input expr rest run
      refine ⟨kept, rest, reads, .inr ⟨expr, phrase⟩, ?_, ?_⟩
      · intro other tree place further reread
        obtain ⟨value, last, matched, reached⟩ := covers _ _ further _ _ reread input rfl
        cases run.symm.trans matched
        exact reached
      · intro left
        rw [Calculator.parse, complete_of_matched run, if_neg left]

theorem Calculator.StopsAt.leading {calculator : Calculator} {kept others : List Token}
    (stops : calculator.StopsAt input kept rest)
    (reads : lexicon.Reads input (kept ++ others) middle) :
    IsLeading calculator.associativity (kept ++ others) kept where
  starts := List.prefix_append kept others
  phrase := stops.phrase
  longest := by
    intro other expr begins phrase
    obtain ⟨more, whole⟩ := begins
    obtain ⟨place, reread, -⟩ := Lexicon.Reads.split (whole ▸ reads)
    have reached := (stops.beyond other expr place phrase reread).length_le
    by_contra longer
    have fewer : kept.length ≤ other.length := by
      by_contra less
      exact longer (List.prefix_of_prefix_length_le ⟨more, whole⟩ (List.prefix_append kept others)
        (Nat.le_of_not_le less))
    obtain ⟨further, rfl, after⟩ := stops.reads.compare reread fewer
    cases further with
    | nil => exact longer (by rw [List.append_nil])
    | cons token further =>
        have shorter := after.shorter
        omega

/-- Two rows of tokens at the start of a text, of which the second one ends where no token is. -/
theorem reads_before_gap {kept front : List Token} (reads : lexicon.Reads input kept rest)
    (whole : lexicon.Reads input front middle) (ends : lexicon.next? middle = none) :
    ∃ others, front = kept ++ others ∧ lexicon.Reads rest others middle := by
  rcases Nat.le_total kept.length front.length with fewer | more
  · exact reads.compare whole fewer
  · obtain ⟨others, rfl, further⟩ := whole.compare reads more
    cases others with
    | nil => exact ⟨[], by simp, .done further.same_place.symm⟩
    | cons token others =>
        obtain ⟨place, first, -⟩ := further.uncons
        rw [ends] at first
        contradiction

theorem goes_on_at {lexicon : Lexicon} (reads : lexicon.Reads input tokens rest) :
    lexicon.GoesOnAt input tokens (byteLength input - byteLength (trim rest)) := by
  have suffix : trim rest <:+ input := reads.suffix.trans (trim_suffix input)
  obtain ⟨front, whole, width⟩ := SyntaxError.is_at_of_suffix suffix
  exact ⟨front, trim rest, whole, width, reads.congr_right (trim_trim rest).symm,
    trim_visible rest⟩

/-- The bounded lexicon has no token where an oversize literal starts. -/
theorem no_token_of_oversize {value : Nat}
    (first : unboundedLexicon.next? middle = some (.numeral value, rest))
    (oversize : (IntegerType.signed 64).greatest < value) : lexicon.next? middle = none := by
  cases found : lexicon.next? middle with
  | none => rfl
  | some pair =>
      obtain ⟨token, left⟩ := pair
      obtain ⟨again, fits⟩ := next_bounded.mp found
      cases first.symm.trans again
      exact absurd oversize (Nat.not_lt_of_le fits)

/-- The calculator reads up to the literal only where there is nothing to read in front of it. -/
theorem Calculator.StopsAt.reaches_literal_iff {calculator : Calculator} {kept given back : List Token}
    {value : Nat} {first : Expr} {others : List (Operator × Expr)}
    (stops : calculator.StopsAt input kept rest) (further : lexicon.Reads rest given middle)
    (derives : Derives calculator.associativity .expr (kept ++ given ++ .numeral value :: back) first
      others) :
    trim middle = trim rest ↔ kept ++ given = [] := by
  constructor
  · intro same
    cases given with
    | nil =>
        rw [List.append_nil] at derives ⊢
        rcases stops.phrase with none | ⟨expr, phrase⟩
        · exact none
        · exact absurd derives (not_before_numeral phrase)
    | cons token given =>
        have shorter := further.shorter
        rw [same] at shorter
        exact absurd shorter (Nat.lt_irrefl _)
  · intro none
    obtain ⟨rfl, rfl⟩ := List.append_eq_nil_iff.mp none
    exact further.same_place.symm

theorem error_before_oversize_literal (calculator : Calculator) {front back : List Token}
    {value : Nat} {first : Expr} {others : List (Operator × Expr)}
    (written : unboundedLexicon.tokens? input = some (front ++ .numeral value :: back))
    (derives : Derives calculator.associativity .expr (front ++ .numeral value :: back) first
      others)
    (fit : ∀ token ∈ front, token.InRange)
    (oversize : (IntegerType.signed 64).greatest < value) :
    ∃ error kept start, calculator.parse input = .error error ∧
      calculator.evaluate input = .error (.malformed error) ∧
      unboundedLexicon.GoesOnAt input front start ∧ error.offset ≤ start ∧
      (error.offset = start ↔ front = []) ∧
      IsLeading calculator.associativity front kept ∧
      unboundedLexicon.GoesOnAt input kept error.offset := by
  obtain ⟨middle, before, behind⟩ := (Lexicon.tokens_iff.mp written).split
  obtain ⟨after, literal, -⟩ := behind.uncons
  have read : lexicon.Reads input front middle := reads_bounded.mpr ⟨before, fit⟩
  obtain ⟨kept, rest, stops⟩ := stops_at calculator input
  obtain ⟨given, rfl, further⟩ :=
    reads_before_gap stops.reads read (no_token_of_oversize literal oversize)
  have suffix : trim middle <:+ trim rest := further.suffix
  have left : trim rest ≠ [] := by
    intro blank
    rw [blank] at suffix
    rw [Lexicon.next_nil (List.suffix_nil.mp suffix)] at literal
    contradiction
  have failed := stops.error left
  -- both places are compared by what is left of the text there
  have inside : trim rest <:+ input := stops.reads.suffix.trans (trim_suffix input)
  have covered := byte_length_suffix inside
  have ordered := byte_length_suffix suffix
  refine ⟨_, kept, _, failed, ?_, goes_on_at before, ?_, ?_, stops.leading read,
    goes_on_at (reads_bounded.mp stops.reads).1⟩
  · rw [Calculator.evaluate, failed]
  · exact Nat.sub_le_sub_left ordered _
  · rw [← stops.reaches_literal_iff further derives]
    constructor
    · intro same
      apply eq_of_byte_length suffix
      simp only at same
      omega
    · intro same
      rw [same]

/-- A literal in parentheses is given up with the parentheses and the operator in front of them. -/
theorem parenthesized_literal_is_given_up :
    unboundedLexicon.tokens? "2 * (3 + 9223372036854775808)".toList =
        some ([.numeral 2, .sign '*', .sign '(', .numeral 3, .sign '+'] ++
          .numeral 9223372036854775808 :: [.sign ')']) ∧
      (∀ token ∈ [.numeral 2, .sign '*', .sign '(', .numeral 3, .sign '+'], Token.InRange token) ∧
      (IntegerType.signed 64).greatest < 9223372036854775808 ∧
      ∃ error start, Calculator.evaluate ⟨.left⟩ "2 * (3 + 9223372036854775808)".toList =
          .error (.malformed error) ∧
        unboundedLexicon.GoesOnAt "2 * (3 + 9223372036854775808)".toList
          [.numeral 2, .sign '*', .sign '(', .numeral 3, .sign '+'] start ∧
        error.offset < start := by
  have written : unboundedLexicon.tokens? "2 * (3 + 9223372036854775808)".toList =
      some ([.numeral 2, .sign '*', .sign '(', .numeral 3, .sign '+'] ++
        .numeral 9223372036854775808 :: [.sign ')']) := by decide +kernel
  have sum : Derives .left .expr
      ([.numeral 3] ++ .sign Operator.add.symbol :: [.numeral 9223372036854775808]) _ _ :=
    .nextTerm (.lastFactor (.number 3)) rfl (.lastTerm (.lastFactor (.number _)))
  have product : Derives .left .term ([.numeral 2] ++ .sign Operator.multiply.symbol :: _) _ _ :=
    .nextFactor (.number 2) rfl (.lastFactor (.parentheses sum))
  have fit : ∀ token ∈ [.numeral 2, .sign '*', .sign '(', .numeral 3, .sign '+'],
      Token.InRange token := by
    simp [Token.InRange, IntegerType.greatest]
  have oversize : (IntegerType.signed 64).greatest < 9223372036854775808 := by decide
  obtain ⟨error, kept, start, -, failed, behind, within, same, -⟩ :=
    error_before_oversize_literal ⟨.left⟩ written (.lastTerm product) fit oversize
  refine ⟨written, fit, oversize, error, start, failed, behind, ?_⟩
  exact Nat.lt_of_le_of_ne within fun at_literal => absurd (same.mp at_literal) (by simp)

/-- The literal starts behind four bytes, but the error is at the operator in front of it. -/
theorem error_at_operator_before_literal :
    unboundedLexicon.tokens? "1 + 99999999999999999999".toList =
        some ([.numeral 1, .sign '+'] ++ .numeral 99999999999999999999 :: []) ∧
      (∀ token ∈ [.numeral 1, .sign '+'], Token.InRange token) ∧
      (IntegerType.signed 64).greatest < 99999999999999999999 ∧
      unboundedLexicon.GoesOnAt "1 + 99999999999999999999".toList [.numeral 1, .sign '+'] 4 ∧
      ∀ associativity, (∃ first others, Derives associativity .expr
          ([.numeral 1, .sign '+'] ++ .numeral 99999999999999999999 :: []) first others) ∧
        Calculator.parse ⟨associativity⟩ "1 + 99999999999999999999".toList = .error ⟨2⟩ := by
  have one : unboundedLexicon.next? "1 + 99999999999999999999".toList =
      some (.numeral 1, " + 99999999999999999999".toList) := by decide +kernel
  have plus : unboundedLexicon.next? " + 99999999999999999999".toList =
      some (.sign '+', " 99999999999999999999".toList) := by decide +kernel
  have read : unboundedLexicon.Reads "1 + 99999999999999999999".toList [.numeral 1, .sign '+']
      "99999999999999999999".toList := .next one (.next plus (.done (by decide +kernel)))
  have start : byteLength "1 + 99999999999999999999".toList -
      byteLength (trim "99999999999999999999".toList) = 4 := by decide +kernel
  refine ⟨by decide +kernel, by simp [Token.InRange, IntegerType.greatest], by decide,
    start ▸ goes_on_at read, ?_⟩
  intro associativity
  constructor
  · have sum : Derives associativity .expr ([.numeral 1] ++ .sign Operator.add.symbol ::
        [.numeral 99999999999999999999]) _ _ :=
      .nextTerm (.lastFactor (.number 1)) rfl (.lastTerm (.lastFactor (.number _)))
    exact ⟨_, _, sum⟩
  · have run : ∃ rest, Calculator.expression ⟨associativity⟩ "1 + 99999999999999999999".toList =
        .matched (.number 1) rest ∧ trim rest = "+ 99999999999999999999".toList := by
      -- only a chain that groups to the left skips the space behind its last operand
      cases associativity with
      | right => exact ⟨" + 99999999999999999999".toList, by decide +kernel, by decide +kernel⟩
      | left => exact ⟨"+ 99999999999999999999".toList, by decide +kernel, by decide +kernel⟩
    obtain ⟨rest, matched, left⟩ := run
    rw [Calculator.parse, complete_of_matched matched, left]
    rfl

end Arithmetic

end Descent
