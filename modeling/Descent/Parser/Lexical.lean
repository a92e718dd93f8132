import Descent.Parser.Character
import Descent.Parser.Repetition
import Descent.Text.Lexeme

/-!
Tokens and words. A token skips the ASCII spaces on both of its sides, so that a grammar written
in tokens needs no rules for spaces of its own.
-/

namespace Descent.Parser

variable {α : Type}

def skipSpace : Parser Unit := skipMany whitespace

/-- The spaces at the start of the input, possibly none. -/
def space : Parser String := recognize skipSpace

def token (parser : Parser α) : Parser α := between skipSpace skipSpace parser

def symbol (text : String) : Parser String := token (literal text)

/-- A lowercase letter followed by letters, digits and underscores. -/
def identifier : Parser String := recognize (Parser.sequence (lower, skipMany (satisfy Text.isWordChar)))

/-- A letter followed by letters and digits, with spaces skipped on both sides. -/
def word : Parser String := token (recognize (Parser.sequence (letter, skipMany alphanumeric)))

/-- Two identifiers with an equals sign between them; spaces may surround the sign. -/
def assignment : Parser (String × String) := do
  let name ← identifier
  let _ ← skipSpace
  let _ ← character '='
  let _ ← skipSpace
  let value ← identifier
  pure (name, value)

end Descent.Parser
