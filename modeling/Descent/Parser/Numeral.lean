import Descent.Parser.Choice
import Descent.Parser.Lexical
import Descent.Text.Decimal

/-!
Decimal numerals that fit a type of integers. The value is built digit by digit in magnitude and
given up as soon as it leaves the bound, so the cost of a digit does not grow with the numeral.
-/

namespace Descent

/-- The types of integers with a fixed width in bits. -/
inductive IntegerType where
  | unsigned (bits : Nat)
  | signed (bits : Nat)
deriving DecidableEq

namespace IntegerType

/-- The greatest value of the type. -/
def greatest : IntegerType → Nat
  | unsigned bits => Nat.pow 2 bits - 1
  | signed bits => Nat.pow 2 (bits - 1) - 1

/-- The magnitude of the least value of the type. -/
def leastMagnitude : IntegerType → Nat
  | unsigned _ => 0
  | signed bits => Nat.pow 2 (bits - 1)

end IntegerType

namespace Parser

/-- One more digit at the end of a numeral, unless the result exceeds `bound`. -/
def appendDigit (bound value : Nat) (digit : Char) : Option Nat := do
  let shifted ← if value * 10 ≤ bound then some (value * 10) else none
  let extended := shifted + Text.digitValue digit
  if extended ≤ bound then some extended else none

/-- The value of a run of digits, unless it exceeds `bound`. -/
def boundedValue (bound : Nat) (digits : List Char) : Option Nat :=
  digits.foldlM (appendDigit bound) 0

/-- One or more digits with a value of at most `bound`; fails where the digits start. -/
def magnitude (bound : Nat) : Parser Nat := fun input =>
  (many1 digit input).andThen fun digits rest =>
    match boundedValue bound digits with
    | some value => .matched value rest
    | none => .failed input

/-- A numeral without a sign. -/
def nat (type : IntegerType) : Parser Nat := magnitude type.greatest

/-- A numeral with an optional minus sign directly in front of its digits. -/
def int (type : IntegerType) : Parser Int :=
  (fun value => (value : Int)) <$> nat type <|>
    precededBy (character '-') ((fun value => -(value : Int)) <$> magnitude type.leastMagnitude)

/-- An unsigned numeral of 64 bits, with spaces skipped on both sides. -/
def natural : Parser Nat := token (nat (.unsigned 64))

/-- A signed numeral of 64 bits, with spaces skipped on both sides. -/
def integer : Parser Int := token (int (.signed 64))

end Parser

end Descent
