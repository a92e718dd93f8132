import Descent.Parser.Numeral
import Descent.Proofs.Text.Leading

/-!
What the scanners do, each in one equation: a repeated test takes the longest run of characters
that pass, a token runs its parser between trimmed ends, and a numeral is read with its exact
value or refused.
-/

namespace Descent.Parser

open Text

variable {α : Type}

theorem advance_satisfy (test : Char → Bool) (input : List Char) :
    advance (satisfy test) input = (input.takeWhile test, input.dropWhile test) := by
  induction input with
  | nil => rw [advance]; rfl
  | cons char rest ih =>
      rw [advance]
      cases passes : test char with
      | false => simp [satisfy, passes]
      | true => simp [satisfy, passes, ih]

theorem skip_many_satisfy (test : Char → Bool) (input : List Char) :
    skipMany (satisfy test) input = .matched () (input.dropWhile test) := by
  rw [skipMany, advance_satisfy]

@[simp] theorem skip_space_apply (input : List Char) :
    skipSpace input = .matched () (trim input) := skip_many_satisfy isSpace input

theorem between_apply {β γ : Type} (opening : Parser β) (closing : Parser γ) (parser : Parser α)
    (input : List Char) :
    between opening closing parser input =
      (opening input).andThen fun _ middle =>
        (parser middle).andThen fun value rest =>
          (closing rest).andThen fun _ last => .matched value last := rfl

theorem token_apply (parser : Parser α) (input : List Char) :
    token parser input =
      (parser (trim input)).andThen fun value rest => .matched value (trim rest) := by
  simp only [token, between_apply, skip_space_apply, Outcome.and_then_matched]

/-- The parser, with the spaces in front of it skipped. -/
def spaced (parser : Parser α) : Parser α := precededBy skipSpace parser

@[simp] theorem spaced_apply (parser : Parser α) (input : List Char) :
    spaced parser input = parser (trim input) := by
  rw [spaced, precededBy, bind_apply, skip_space_apply, Outcome.and_then_matched]

theorem pair_apply {β : Type} (first : Parser α) (second : Parser β) (input : List Char) :
    Parser.sequence (first, second) input =
      (first input).andThen fun left rest =>
        (second rest).andThen fun right last => .matched (left, right) last := rfl

theorem stripped_cons (first char : Char) (expected input : List Char) :
    (first :: expected).isPrefixOf? (char :: input) =
      if first == char then expected.isPrefixOf? input else none := rfl

theorem stripped_nil (input : List Char) : [].isPrefixOf? input = some input := rfl

theorem literal_cons (expected char : Char) (rest : List Char) :
    literal (String.singleton expected) (char :: rest) =
      if expected = char then .matched (String.singleton expected) rest
      else .failed (char :: rest) := by
  by_cases same : expected = char <;>
    simp [literal, String.toList_singleton, stripped_cons, stripped_nil, same]

theorem literal_nil (expected : Char) : literal (String.singleton expected) [] = .failed [] := by
  rw [literal, String.toList_singleton]
  rfl

theorem recognize_of_matched {parser : Parser α} {front rest : List Char} {value : α}
    (run : parser (front ++ rest) = .matched value rest) :
    recognize parser (front ++ rest) = .matched (String.ofList front) rest := by
  have length : (front ++ rest).length - rest.length = front.length := by
    rw [List.length_append, Nat.add_sub_cancel]
  rw [recognize, run, Outcome.and_then_matched, length, List.take_left]

/-- The text of a character of one class and of all characters of another class that follow it. -/
def scan (starts continues : Char → Bool) : Parser String :=
  recognize (Parser.sequence (satisfy starts, skipMany (satisfy continues)))

theorem scan_nil (starts continues : Char → Bool) : scan starts continues [] = .failed [] := rfl

theorem scan_cons (starts continues : Char → Bool) (char : Char) (rest : List Char) :
    scan starts continues (char :: rest) =
      if starts char then
        .matched (String.ofList (char :: rest.takeWhile continues)) (rest.dropWhile continues)
      else .failed (char :: rest) := by
  cases begins : starts char with
  | false => simp [scan, recognize, Parser.sequence, Row.run, satisfy, begins]
  | true =>
      have run : Parser.sequence (satisfy starts, skipMany (satisfy continues))
          ((char :: rest.takeWhile continues) ++ rest.dropWhile continues) =
            .matched (char, ()) (rest.dropWhile continues) := by
        rw [List.cons_append, List.takeWhile_append_dropWhile]
        simp [Parser.sequence, Row.run, satisfy, begins, skip_many_satisfy]
      have recognized := recognize_of_matched run
      rw [List.cons_append, List.takeWhile_append_dropWhile] at recognized
      exact recognized

theorem identifier_nil : identifier [] = .failed [] := rfl

theorem identifier_cons (char : Char) (rest : List Char) :
    identifier (char :: rest) =
      if char.isLower then
        .matched (String.ofList (char :: rest.takeWhile isWordChar)) (rest.dropWhile isWordChar)
      else .failed (char :: rest) := scan_cons Char.isLower isWordChar char rest

theorem many1_digit_apply (input : List Char) :
    many1 digit input =
      if input.takeWhile Char.isDigit = [] then .failed input
      else .matched (input.takeWhile Char.isDigit) (input.dropWhile Char.isDigit) := by
  cases input with
  | nil => rfl
  | cons char rest =>
      cases starts : char.isDigit with
      | false => simp [many1, digit, satisfy, starts]
      | true => simp [many1, many, digit, satisfy, advance_satisfy, starts]

theorem le_foldl_digits (digits : List Char) (value : Nat) :
    value ≤ digits.foldl (fun value digit => value * 10 + digitValue digit) value := by
  induction digits generalizing value with
  | nil => exact Nat.le_refl _
  | cons digit digits ih =>
      have step : value ≤ value * 10 + digitValue digit := by omega
      exact Nat.le_trans step (ih _)

theorem fold_append_digit (bound : Nat) (digits : List Char) (value : Nat)
    (bounded : value ≤ bound) :
    digits.foldlM (appendDigit bound) value =
      let total := digits.foldl (fun value digit => value * 10 + digitValue digit) value
      if total ≤ bound then some total else none := by
  induction digits generalizing value with
  | nil => simp [bounded]
  | cons digit digits ih =>
      rw [List.foldlM_cons, List.foldl_cons]
      by_cases fits : value * 10 + digitValue digit ≤ bound
      · have shifted : value * 10 ≤ bound := by omega
        have appended : appendDigit bound value digit = some (value * 10 + digitValue digit) := by
          simp [appendDigit, shifted, fits]
        rw [appended]
        exact ih _ fits
      · have refused : appendDigit bound value digit = none := by
          by_cases shifted : value * 10 ≤ bound <;> simp [appendDigit, shifted, fits]
        have grows := le_foldl_digits digits (value * 10 + digitValue digit)
        have exceeds : ¬ digits.foldl (fun value digit => value * 10 + digitValue digit)
            (value * 10 + digitValue digit) ≤ bound := by omega
        rw [refused]
        exact (if_neg exceeds).symm

theorem bounded_value_eq (bound : Nat) (digits : List Char) :
    boundedValue bound digits =
      if decimalValue digits ≤ bound then some (decimalValue digits) else none :=
  fold_append_digit bound digits 0 (Nat.zero_le bound)

theorem magnitude_apply (bound : Nat) (input : List Char) :
    magnitude bound input =
      if input.takeWhile Char.isDigit ≠ [] ∧
          decimalValue (input.takeWhile Char.isDigit) ≤ bound then
        .matched (decimalValue (input.takeWhile Char.isDigit)) (input.dropWhile Char.isDigit)
      else .failed input := by
  rw [magnitude, many1_digit_apply]
  by_cases none : input.takeWhile Char.isDigit = []
  · simp [none]
  · by_cases fits : decimalValue (input.takeWhile Char.isDigit) ≤ bound <;>
      simp [none, bounded_value_eq, fits]

/-- Where a numeral is read, no spaces stand in front. -/
theorem magnitude_trimmed {bound value : Nat} {input rest : List Char}
    (run : magnitude bound input = .matched value rest) : trim input = input := by
  rw [magnitude_apply] at run
  split at run
  · next digits =>
      cases input with
      | nil => rfl
      | cons char others =>
          have digit : char.isDigit = true := by
            cases starts : char.isDigit with
            | true => rfl
            | false => simp [starts] at digits
          exact trim_other (digit_not_space digit) others
  · contradiction

end Descent.Parser
