/-!
Two notions of white space, and the lines of a text. Grammars skip the five ASCII spaces only;
whether a line counts as blank is decided by the Unicode property White_Space.
-/

namespace Descent.Text

/-- The ASCII spaces: space, tab, line feed, form feed and carriage return. The vertical tab and
all spaces beyond ASCII are ordinary characters. -/
def isSpace (char : Char) : Bool :=
  char == ' ' || char == '\t' || char == '\n' || char == '\x0c' || char == '\r'

/-- The code points with the Unicode property White_Space, as ranges with both ends included. -/
def blankRanges : List (Nat × Nat) :=
  [(0x09, 0x0d), (0x20, 0x20), (0x85, 0x85), (0xa0, 0xa0), (0x1680, 0x1680),
    (0x2000, 0x200a), (0x2028, 0x2029), (0x202f, 0x202f), (0x205f, 0x205f), (0x3000, 0x3000)]

def isBlank (char : Char) : Bool :=
  blankRanges.any fun (first, last) => first ≤ char.toNat && char.toNat ≤ last

/-- The lines of `text`, without their ends. A line ends with a line feed, or with a carriage
return and a line feed; the last line needs no end, and then it keeps a carriage return. -/
def lines : List Char → List (List Char)
  | [] => []
  | '\n' :: rest => [] :: lines rest
  | '\r' :: '\n' :: rest => [] :: lines rest
  | char :: rest =>
      match lines rest with
      | [] => [[char]]
      | line :: others => (char :: line) :: others

end Descent.Text
