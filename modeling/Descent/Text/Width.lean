/-!
The width of a text: how many bytes its characters take in UTF-8. Every position that this
library reports is such a width, of the part of the text that comes before the position.
-/

namespace Descent.Text

/-- The number of bytes that `text` takes in UTF-8. -/
def byteLength : List Char → Nat
  | [] => 0
  | char :: rest => char.utf8Size + byteLength rest

theorem byte_length_append (first second : List Char) :
    byteLength (first ++ second) = byteLength first + byteLength second := by
  induction first with
  | nil => rw [List.nil_append, byteLength, Nat.zero_add]
  | cons char rest ih => rw [List.cons_append, byteLength, byteLength, ih, Nat.add_assoc]

end Descent.Text
