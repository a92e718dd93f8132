import Descent.Proofs.Parser.Scanning
import Descent.Proofs.Writing

/-!
Numerals against the range of their type. The value is built digit by digit and given up at the first
step that leaves the range, but a value never shrinks when a digit follows, so only the whole value
counts. Main statement: a numeral of any length is read exactly when its value belongs to the type,
on either side of zero, and every value of the type is read back from its decimal text.
-/

namespace Descent

/-- The least value of the type. -/
def IntegerType.least (type : IntegerType) : Int := -(type.leastMagnitude : Int)

example : (IntegerType.signed 8).least = -128 ∧ (IntegerType.signed 8).greatest = 127 ∧
    (IntegerType.unsigned 8).least = 0 ∧ (IntegerType.unsigned 8).greatest = 255 := by decide

namespace Text

def leadingDigits (input : List Char) : List Char := input.takeWhile Char.isDigit

def afterDigits (input : List Char) : List Char := input.dropWhile Char.isDigit

theorem leading_digits_nil {input : List Char}
    (other : ∀ char ∈ input.head?, char.isDigit = false) : leadingDigits input = [] := by
  cases input with
  | nil => rfl
  | cons char rest => exact List.takeWhile_cons_of_neg (by simp [other char rfl])

theorem leading_digits_ne_nil {input : List Char}
    (digit : ∃ char ∈ input.head?, char.isDigit = true) : leadingDigits input ≠ [] := by
  obtain ⟨char, first, digit⟩ := digit
  obtain ⟨rest, rfl⟩ := List.head?_eq_some_iff.mp first
  simp [leadingDigits, digit]

/-- The digits of a number are cut off in front of whatever is no digit. -/
theorem digits_span (value : Nat) {rest : List Char}
    (ended : ∀ char ∈ rest.head?, char.isDigit = false) :
    leadingDigits (Nat.toDigits 10 value ++ rest) = Nat.toDigits 10 value ∧
      afterDigits (Nat.toDigits 10 value ++ rest) = rest :=
  span_run (all_digits value) ended

theorem natural_text (value : Nat) : (toString value).toList = Nat.toDigits 10 value :=
  Nat.toList_repr

theorem negative_text (value : Nat) :
    (toString (Int.negSucc value)).toList = '-' :: Nat.toDigits 10 (value + 1) := by
  show ("-" ++ (value + 1).repr).toList = _
  rw [String.toList_append, Nat.toList_repr]
  rfl

end Text

namespace Parser

open Text

theorem magnitude_leading (bound : Nat) (input : List Char) :
    magnitude bound input =
      if leadingDigits input ≠ [] ∧ decimalValue (leadingDigits input) ≤ bound then
        .matched (decimalValue (leadingDigits input)) (afterDigits input)
      else .failed input := magnitude_apply bound input

theorem magnitude_digits {bound value : Nat} (fits : value ≤ bound) {rest : List Char}
    (ended : ∀ char ∈ rest.head?, char.isDigit = false) :
    magnitude bound (Nat.toDigits 10 value ++ rest) = .matched value rest := by
  obtain ⟨taken, dropped⟩ := digits_span value ended
  rw [magnitude_leading, taken, dropped, decimal_value_digits]
  exact if_pos ⟨Nat.toDigits_ne_nil, fits⟩

theorem minus_other {input : List Char} (other : '-' ∉ input.head?) :
    character '-' input = .failed input := by
  cases input with
  | nil => rfl
  | cons char rest =>
      have differs : char ≠ '-' := by
        rintro rfl
        exact other rfl
      simp [character, satisfy, differs]

theorem minus_cons (rest : List Char) : character '-' ('-' :: rest) = .matched '-' rest := rfl

variable {type : IntegerType}

/-- Where no minus sign stands, an integer is a numeral without a sign. -/
theorem int_unsigned {input : List Char} (other : '-' ∉ input.head?) :
    int type input = (nat type input).map fun value : Nat => (value : Int) := by
  have read := magnitude_leading type.greatest input
  rw [int, or_else_apply, precededBy, bind_apply, minus_other other, Outcome.and_then_failed,
    map_apply, bind_apply, nat, read]
  split
  · rfl
  · rfl

/-- After a minus sign the digits alone decide. -/
theorem int_signed (rest : List Char) :
    int type ('-' :: rest) =
      (magnitude type.leastMagnitude rest).map fun value : Nat => -(value : Int) := by
  have refused : nat type ('-' :: rest) = .failed ('-' :: rest) := by
    rw [nat, magnitude_leading]
    exact if_neg (by simp [leadingDigits])
  rw [int, or_else_apply, map_apply, bind_apply, refused, Outcome.and_then_failed,
    Outcome.map_failed, Outcome.or_else_failed, precededBy, bind_apply, minus_cons,
    Outcome.and_then_matched, map_apply, bind_apply]
  cases magnitude type.leastMagnitude rest with
  | matched value after => rfl
  | failed after => rfl

theorem digit_not_minus {input : List Char}
    (digit : ∃ char ∈ input.head?, char.isDigit = true) : '-' ∉ input.head? := by
  obtain ⟨char, first, digit⟩ := digit
  intro minus
  cases first.symm.trans minus
  contradiction

theorem int_of_digit {input : List Char} (digit : ∃ char ∈ input.head?, char.isDigit = true) :
    int type input =
      if decimalValue (leadingDigits input) ≤ type.greatest then
        .matched (decimalValue (leadingDigits input) : Int) (afterDigits input)
      else .failed input := by
  have visible := leading_digits_ne_nil digit
  rw [int_unsigned (digit_not_minus digit), nat, magnitude_leading]
  by_cases fits : decimalValue (leadingDigits input) ≤ type.greatest
  · rw [if_pos ⟨visible, fits⟩, if_pos fits, Outcome.map_matched]
  · rw [if_neg (fun both => fits both.2), if_neg fits, Outcome.map_failed]

theorem int_of_minus (rest : List Char) :
    int type ('-' :: rest) =
      if leadingDigits rest ≠ [] ∧ type.least ≤ -(decimalValue (leadingDigits rest) : Int) then
        .matched (-(decimalValue (leadingDigits rest) : Int)) (afterDigits rest)
      else .failed rest := by
  have range : type.least ≤ -(decimalValue (leadingDigits rest) : Int) ↔
      decimalValue (leadingDigits rest) ≤ type.leastMagnitude := by
    rw [IntegerType.least]
    omega
  simp only [int_signed, magnitude_leading, range]
  split
  · rfl
  · rfl

theorem int_of_other {input : List Char}
    (other : ∀ char ∈ input.head?, char.isDigit = false ∧ char ≠ '-') :
    int type input = .failed input := by
  have unsigned : '-' ∉ input.head? := fun minus => (other '-' minus).2 rfl
  have none := leading_digits_nil fun char first => (other char first).1
  rw [int_unsigned unsigned, nat, magnitude_leading, none, if_neg (by simp), Outcome.map_failed]

/-- Every value of the type is read back from its decimal text. -/
theorem int_of_text {value : Int} {rest : List Char} (above : type.least ≤ value)
    (below : value ≤ type.greatest) (ended : ∀ char ∈ rest.head?, char.isDigit = false) :
    int type ((toString value).toList ++ rest) = .matched value rest := by
  cases value with
  | ofNat number =>
      have text : (toString (Int.ofNat number)).toList = Nat.toDigits 10 number :=
        natural_text number
      obtain ⟨first, others, same, digit, -⟩ := digits_visible number
      have unsigned : '-' ∉ (Nat.toDigits 10 number ++ rest).head? := by
        rw [same]
        exact digit_not_minus ⟨first, rfl, digit⟩
      have fits : number ≤ type.greatest := Int.ofNat_le.mp below
      rw [text, int_unsigned unsigned, nat, magnitude_digits fits ended]
      rfl
  | negSucc number =>
      have fits : number + 1 ≤ type.leastMagnitude := by
        rw [IntegerType.least] at above
        omega
      rw [negative_text, List.cons_append, int_signed, magnitude_digits fits ended]
      rfl

theorem integers_are_exact (type : IntegerType) :
    (∀ input, nat type input =
      if leadingDigits input ≠ [] ∧ decimalValue (leadingDigits input) ≤ type.greatest then
        .matched (decimalValue (leadingDigits input)) (afterDigits input)
      else .failed input) ∧
    (∀ input : List Char, (∃ char ∈ input.head?, char.isDigit = true) → int type input =
      if decimalValue (leadingDigits input) ≤ type.greatest then
        .matched (decimalValue (leadingDigits input) : Int) (afterDigits input)
      else .failed input) ∧
    (∀ rest, int type ('-' :: rest) =
      if leadingDigits rest ≠ [] ∧ type.least ≤ -(decimalValue (leadingDigits rest) : Int) then
        .matched (-(decimalValue (leadingDigits rest) : Int)) (afterDigits rest)
      else .failed rest) ∧
    (∀ input : List Char, (∀ char ∈ input.head?, char.isDigit = false ∧ char ≠ '-') →
      int type input = .failed input) ∧
    ∀ (value : Int) (rest : List Char), type.least ≤ value → value ≤ type.greatest →
      (∀ char ∈ rest.head?, char.isDigit = false) →
      int type ((toString value).toList ++ rest) = .matched value rest :=
  ⟨magnitude_leading type.greatest, fun _ => int_of_digit, int_of_minus, fun _ => int_of_other,
    fun _ _ => int_of_text⟩

/-- The least byte is read back, and a number one beyond the greatest byte is refused as a whole. -/
theorem bytes_are_exact :
    (IntegerType.signed 8).least ≤ -128 ∧ -128 ≤ ((IntegerType.signed 8).greatest : Int) ∧
      (∀ char ∈ [';'].head?, char.isDigit = false) ∧
      int (.signed 8) ((toString (-128 : Int)).toList ++ [';']) = .matched (-128) [';'] ∧
      (∃ char ∈ ['1', '2', '8'].head?, char.isDigit = true) ∧
      int (.signed 8) ['1', '2', '8'] = .failed ['1', '2', '8'] ∧
      (∀ char ∈ ['x'].head?, char.isDigit = false ∧ char ≠ '-') ∧
      int (.signed 8) ['x'] = .failed ['x'] := by
  obtain ⟨-, numeral, -, other, back⟩ := integers_are_exact (.signed 8)
  have digit : ∃ char ∈ ['1', '2', '8'].head?, char.isDigit = true := ⟨'1', rfl, rfl⟩
  have letter : ∀ char ∈ ['x'].head?, char.isDigit = false ∧ char ≠ '-' := by
    rintro _ ⟨⟩
    decide
  have ended : ∀ char ∈ [';'].head?, char.isDigit = false := by
    rintro _ ⟨⟩
    rfl
  exact ⟨by decide, by decide, ended, back (-128) [';'] (by decide) (by decide) ended, digit,
    numeral _ digit, letter, other _ letter⟩

end Parser

end Descent
