import Descent.Parser.Lexical

/-!
Complete parses: the parser has to match the whole input, up to ASCII spaces at its end. A final
failure becomes a syntax error, which tells where the parse stopped.
-/

namespace Descent

/-- A syntax error, with the byte offset of the unexpected input. -/
structure SyntaxError where
  offset : Nat
deriving DecidableEq

def SyntaxError.message (error : SyntaxError) : String :=
  "unexpected input at byte offset " ++ toString error.offset

namespace Parser

variable {α : Type}

/-- The value of `parser` on the whole of `input`. -/
def complete (parser : Parser α) (input : List Char) : Except SyntaxError α :=
  let outcome := terminatedBy parser (precededBy skipSpace endOfInput) input
  match outcome with
  | .matched value _ => .ok value
  | .failed _ => .error ⟨outcome.offsetIn input⟩

end Parser

end Descent
