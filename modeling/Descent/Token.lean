import Descent.Text.Blank
import Descent.Text.Decimal
import Descent.Text.Lexeme

/-!
Tokens. A lexicon tells which lexemes of a text are tokens of a language; spaces are none, and are
dropped. In the other direction, tokens are written with any spaces around them, as long as two
words do not run together.
-/

namespace Descent

inductive Token where
  | word (text : String)
  | numeral (value : Nat)
  | sign (char : Char)
deriving DecidableEq

structure Lexicon where
  hasWords : Bool
  /-- The values that a numeral can have. -/
  admits : Nat → Bool
  signs : List Char

namespace Lexicon

def token? (lexicon : Lexicon) : List Char → Option Token
  | [] => none
  | char :: rest =>
      if char.isLower then
        if lexicon.hasWords then some (.word (String.ofList (char :: rest))) else none
      else if char.isDigit then
        let value := Text.decimalValue (char :: rest)
        if lexicon.admits value then some (.numeral value) else none
      else if lexicon.signs.contains char then some (.sign char)
      else none

/-- The tokens of a text, unless it holds something else than tokens and spaces. -/
def tokens? (lexicon : Lexicon) (text : List Char) : Option (List Token) :=
  ((Text.lexemes text).filter fun lexeme => !lexeme.all Text.isSpace).mapM lexicon.token?

end Lexicon

namespace Token

def text : Token → List Char
  | word text => text.toList
  | numeral value => Nat.toDigits 10 value
  | sign char => [char]

/-- Words and numerals: written side by side, two of them can read as one. -/
def isWordlike : Token → Bool
  | word _ => true
  | numeral _ => true
  | sign _ => false

/-- A text that writes the tokens in order. The space before a token may be left out, except
between two tokens of which each is a word or a numeral. -/
inductive Written : List Token → List Char → Prop where
  | nil {gap : List Char} (spaces : ∀ char ∈ gap, Text.isSpace char) : Written [] gap
  | cons {gap rest : List Char} {token : Token} {tokens : List Token}
      (spaces : ∀ char ∈ gap, Text.isSpace char)
      (apart : token.isWordlike → (∃ next ∈ tokens.head?, next.isWordlike) →
        ∃ char ∈ rest.head?, Text.isSpace char)
      (following : Written tokens rest) : Written (token :: tokens) (gap ++ token.text ++ rest)

end Token

end Descent
