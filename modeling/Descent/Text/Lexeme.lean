/-!
Lexemes. A text is cut into words, runs of digits and single characters, each word and each run as
long as possible. Main statement: the lexemes in order make up the text.
-/

namespace Descent.Text

/-- Letters, digits and the underscore: what a word goes on with. It starts with a lowercase
letter. -/
def isWordChar (char : Char) : Bool := char.isAlphanum || char == '_'

def lexemes : List Char → List (List Char)
  | [] => []
  | char :: rest =>
      if char.isLower then
        (char :: rest.takeWhile isWordChar) :: lexemes (rest.dropWhile isWordChar)
      else if char.isDigit then
        (char :: rest.takeWhile Char.isDigit) :: lexemes (rest.dropWhile Char.isDigit)
      else [char] :: lexemes rest
termination_by text => text.length
decreasing_by
  · exact Nat.lt_succ_of_le (List.dropWhile_sublist isWordChar).length_le
  · exact Nat.lt_succ_of_le (List.dropWhile_sublist Char.isDigit).length_le
  · exact Nat.lt_succ_self _

theorem lexemes_flatten (text : List Char) : (lexemes text).flatten = text := by
  fun_induction lexemes text with
  | case1 => rfl
  | case2 char rest lower ih =>
      rw [List.flatten_cons, ih, List.cons_append, List.takeWhile_append_dropWhile]
  | case3 char rest lower digit ih =>
      rw [List.flatten_cons, ih, List.cons_append, List.takeWhile_append_dropWhile]
  | case4 char rest lower digit ih => rw [List.flatten_cons, ih, List.singleton_append]

end Descent.Text
