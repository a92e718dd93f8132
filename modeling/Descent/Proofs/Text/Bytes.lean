import Descent.Text.Width

/-!
The bytes of a text. A text is stored in UTF-8, where offsets count bytes, so an offset is a place in
the text only where a character starts, and at the end. Main statement: where the bytes of a text
start with the bytes of another one, the cut between them is such a place.
-/

namespace Descent.Text

theorem byte_length_eq (text : List Char) : byteLength text = text.utf8Encode.size := by
  induction text with
  | nil => rfl
  | cons char rest ih =>
      rw [List.utf8Encode_cons, ByteArray.size_append, byteLength, ih, List.utf8Encode_singleton,
        List.size_toByteArray, String.length_utf8EncodeChar]

/-- A character of the text starts at this byte, or the text ends there. -/
def IsBoundary (text : List Char) (offset : Nat) : Prop :=
  String.Pos.Raw.IsValid (String.ofList text) ⟨offset⟩

theorem boundary_append (front back : List Char) :
    IsBoundary (front ++ back) (byteLength front) := by
  refine String.Pos.Raw.isValid_iff_exists_append.mpr
    ⟨String.ofList front, String.ofList back, String.ofList_append, ?_⟩
  rw [byte_length_eq]
  rfl

theorem front_bytes (front back : List Char) :
    (front ++ back).utf8Encode.extract 0 (byteLength front) = front.utf8Encode := by
  rw [List.utf8Encode_append, byte_length_eq, ByteArray.extract_append_eq_left rfl]

theorem starts_with_bytes {front text : List Char} {bytes : ByteArray}
    (start : text.utf8Encode = front.utf8Encode ++ bytes) :
    ∃ back, text = front ++ back ∧ back.utf8Encode = bytes := by
  obtain ⟨back, rfl⟩ := List.isPrefix_of_utf8Encode_append_eq_utf8Encode bytes start.symm
  rw [List.utf8Encode_append, ByteArray.append_right_inj] at start
  exact ⟨back, rfl, start⟩

end Descent.Text
