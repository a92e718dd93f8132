import Descent.Parser.Numeral

/-!
Runs of items with commas between them, and lists in square brackets. Neither form can be empty
or end with a comma.
-/

namespace Descent.Parser

variable {α : Type}

def commaSeparated (item : Parser α) : Parser (List α) := separated item (symbol ",")

def bracketed (item : Parser α) : Parser (List α) :=
  between (symbol "[") (symbol "]") (commaSeparated item)

def naturals : Parser (List Nat) := bracketed natural

def alphanumerics : Parser (List Char) := bracketed (token alphanumeric)

end Descent.Parser
