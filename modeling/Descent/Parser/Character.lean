import Descent.Parser.Basic
import Descent.Text.Blank

/-!
Parsers for a single character, for a given text, and for the end of the input. Each of them
fails where it started. All named classes of characters are ASCII classes.
-/

namespace Descent.Parser

def anyChar : Parser Char := fun input =>
  match input with
  | [] => .failed []
  | char :: rest => .matched char rest

def satisfy (test : Char → Bool) : Parser Char := fun input =>
  match input with
  | [] => .failed []
  | char :: rest => if test char then .matched char rest else .failed (char :: rest)

def character (expected : Char) : Parser Char := satisfy (· == expected)

/-- Matches `text` at the start of the input; nothing is skipped to find it. -/
def literal (text : String) : Parser String := fun input =>
  match text.toList.isPrefixOf? input with
  | some rest => .matched text rest
  | none => .failed input

def endOfInput : Parser Unit := fun input =>
  match input with
  | [] => .matched () []
  | char :: rest => .failed (char :: rest)

def digit : Parser Char := satisfy Char.isDigit

def lower : Parser Char := satisfy Char.isLower

def upper : Parser Char := satisfy Char.isUpper

def letter : Parser Char := satisfy Char.isAlpha

def alphanumeric : Parser Char := satisfy Char.isAlphanum

def whitespace : Parser Char := satisfy Text.isSpace

end Descent.Parser
