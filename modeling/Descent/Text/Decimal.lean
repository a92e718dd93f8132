/-!
Decimal digits and the number that a run of them stands for.
-/

namespace Descent.Text

def digitValue (digit : Char) : Nat := digit.toNat - '0'.toNat

/-- The value of a run of digits; zeros in front do not change it. -/
def decimalValue (digits : List Char) : Nat :=
  digits.foldl (fun value digit => value * 10 + digitValue digit) 0

end Descent.Text
