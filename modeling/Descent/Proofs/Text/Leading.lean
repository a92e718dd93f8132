import Descent.Text.Blank
import Descent.Text.Lexeme
import Mathlib.Data.List.TakeWhile

/-!
The start of a text: the spaces in front, and the first lexeme after them. Both are cut off as
long as possible, so the cut of a longer text is the cut of its front as soon as something of the
front is left over.
-/

namespace Descent.Text

/-- The text from its first character on that is not a space. -/
def trim (text : List Char) : List Char := text.dropWhile isSpace

theorem trim_suffix (text : List Char) : trim text <:+ text := List.dropWhile_suffix isSpace

/-- The spaces in front of a text and what is left without them make up the text. -/
theorem spaces_append_trim (text : List Char) : text.takeWhile isSpace ++ trim text = text :=
  List.takeWhile_append_dropWhile

@[simp] theorem trim_nil : trim [] = [] := rfl

theorem trim_space {char : Char} (space : isSpace char = true) (rest : List Char) :
    trim (char :: rest) = trim rest := List.dropWhile_cons_of_pos space

theorem trim_other {char : Char} (other : isSpace char = false) (rest : List Char) :
    trim (char :: rest) = char :: rest := List.dropWhile_cons_of_neg (by simp [other])

theorem trim_head {text rest : List Char} {char : Char} (start : trim text = char :: rest) :
    isSpace char = false := by
  have first := List.head?_dropWhile_not isSpace text
  rw [trim] at start
  rw [start] at first
  exact first

theorem trim_visible (text : List Char) : ∀ char ∈ (trim text).head?, isSpace char = false := by
  intro char first
  obtain ⟨rest, start⟩ := List.head?_eq_some_iff.mp first
  exact trim_head start

theorem trim_of_visible {text : List Char} (visible : ∀ char ∈ text.head?, isSpace char = false) :
    trim text = text := by
  cases text with
  | nil => rfl
  | cons char rest => exact trim_other (visible char rfl) rest

@[simp] theorem trim_trim (text : List Char) : trim (trim text) = trim text := by
  cases start : trim text with
  | nil => rfl
  | cons char rest => rw [trim_other (trim_head start)]

theorem trim_eq_nil {text : List Char} :
    trim text = [] ↔ ∀ char ∈ text, isSpace char = true := List.dropWhile_eq_nil_iff

theorem trim_append_of_spaces {gap : List Char} (spaces : trim gap = []) (text : List Char) :
    trim (gap ++ text) = trim text := List.dropWhile_append_of_pos (trim_eq_nil.mp spaces)

theorem trim_append {front : List Char} (visible : trim front ≠ []) (text : List Char) :
    trim (front ++ text) = trim front ++ text := by
  have some : (List.dropWhile isSpace front).isEmpty = false := by
    exact List.isEmpty_eq_false_iff.mpr visible
  rw [trim, List.dropWhile_append, some]
  rfl

theorem trim_front {front back : List Char} (trimmed : trim (front ++ back) = front ++ back) :
    trim front = front := by
  by_cases spaces : trim front = []
  · rw [trim_append_of_spaces spaces] at trimmed
    have kept := (trim_suffix back).length_le
    rw [trimmed, List.length_append] at kept
    have empty : front.length = 0 := by omega
    rw [List.length_eq_zero_iff.mp empty, trim_nil]
  · rw [trim_append spaces] at trimmed
    exact List.append_cancel_right trimmed

/-- What is left of a text starts later the less is left. -/
theorem trim_suffix_trim {rest text : List Char} (suffix : rest <:+ text) :
    trim rest <:+ trim text := by
  obtain ⟨gap, rfl⟩ := suffix
  induction gap with
  | nil => exact List.suffix_refl _
  | cons char gap ih =>
      rw [List.cons_append]
      cases space : isSpace char with
      | true =>
          rw [trim_space space]
          exact ih
      | false =>
          rw [trim_other space]
          have kept : rest <:+ char :: (gap ++ rest) := List.suffix_append (char :: gap) rest
          exact (trim_suffix rest).trans kept

theorem digit_not_lower {char : Char} (digit : char.isDigit = true) : char.isLower = false := by
  have last : char.val.toNat ≤ '9'.val.toNat := by
    simp only [Char.isDigit, Bool.and_eq_true, decide_eq_true_eq] at digit
    exact UInt32.le_iff_toNat_le.mp digit.2
  cases lower : char.isLower with
  | false => rfl
  | true =>
      have bounds := Bool.and_eq_true_iff.mp lower
      have first : 'a'.val.toNat ≤ char.val.toNat :=
        UInt32.le_iff_toNat_le.mp (of_decide_eq_true bounds.1)
      have apart : '9'.val.toNat < 'a'.val.toNat := by decide
      omega

theorem digit_not_space {char : Char} (digit : char.isDigit = true) : isSpace char = false := by
  cases space : isSpace char with
  | false => rfl
  | true =>
      simp only [isSpace, Bool.or_eq_true, beq_iff_eq] at space
      rcases space with (((rfl | rfl) | rfl) | rfl) | rfl <;> contradiction

/-- The first lexeme of a text, and the text after it. -/
def cut : List Char → List Char × List Char
  | [] => ([], [])
  | char :: rest =>
      if char.isLower then (char :: rest.takeWhile isWordChar, rest.dropWhile isWordChar)
      else if char.isDigit then
        (char :: rest.takeWhile Char.isDigit, rest.dropWhile Char.isDigit)
      else ([char], rest)

theorem cut_lower {char : Char} (lower : char.isLower = true) (rest : List Char) :
    cut (char :: rest) = (char :: rest.takeWhile isWordChar, rest.dropWhile isWordChar) := by
  rw [cut, if_pos lower]

theorem cut_digit {char : Char} (lower : char.isLower = false) (digit : char.isDigit = true)
    (rest : List Char) :
    cut (char :: rest) = (char :: rest.takeWhile Char.isDigit, rest.dropWhile Char.isDigit) := by
  rw [cut, lower, if_neg Bool.false_ne_true, if_pos digit]

theorem cut_single {char : Char} (lower : char.isLower = false) (digit : char.isDigit = false)
    (rest : List Char) : cut (char :: rest) = ([char], rest) := by
  rw [cut, lower, digit, if_neg Bool.false_ne_true, if_neg Bool.false_ne_true]

theorem cut_eq_append (text : List Char) : (cut text).1 ++ (cut text).2 = text := by
  cases text with
  | nil => rfl
  | cons char rest =>
      simp only [cut]
      split
      · rw [List.cons_append, List.takeWhile_append_dropWhile]
      · split
        · rw [List.cons_append, List.takeWhile_append_dropWhile]
        · rfl

theorem cut_rest_lt (char : Char) (rest : List Char) :
    (cut (char :: rest)).2.length < (char :: rest).length := by
  simp only [cut]
  split
  · exact Nat.lt_succ_of_le (List.dropWhile_suffix isWordChar).length_le
  · split
    · exact Nat.lt_succ_of_le (List.dropWhile_suffix Char.isDigit).length_le
    · exact Nat.lt_succ_self _

/-- A run that ends within the front of a text is the run of the front alone. -/
theorem span_front {test : Char → Bool} {front back rest : List Char}
    (dropped : (front ++ back).dropWhile test = rest ++ back) :
    front.takeWhile test = (front ++ back).takeWhile test ∧ front.dropWhile test = rest := by
  have longer : (front ++ back).takeWhile test ++ rest ++ back = front ++ back := by
    rw [List.append_assoc, ← dropped, List.takeWhile_append_dropWhile]
  have whole := List.append_cancel_right longer
  have passes : ∀ char ∈ (front ++ back).takeWhile test, test char = true :=
    fun char member => List.mem_takeWhile_imp member
  have stops : rest.takeWhile test = [] ∧ rest.dropWhile test = rest := by
    cases rest with
    | nil => exact ⟨rfl, rfl⟩
    | cons char others =>
        have first := List.head?_dropWhile_not test (front ++ back)
        rw [dropped] at first
        have refuses : ¬ test char = true := by simpa using first
        exact ⟨List.takeWhile_cons_of_neg refuses, List.dropWhile_cons_of_neg refuses⟩
  constructor
  · conv => lhs; rw [← whole]
    rw [List.takeWhile_append_of_pos passes, stops.1, List.append_nil]
  · conv => lhs; rw [← whole]
    rw [List.dropWhile_append_of_pos passes, stops.2]

theorem cut_front {front back rest : List Char} (visible : front ≠ [])
    (left : (cut (front ++ back)).2 = rest ++ back) :
    cut front = ((cut (front ++ back)).1, rest) := by
  obtain ⟨char, others, rfl⟩ := List.exists_cons_of_ne_nil visible
  rw [List.cons_append] at left ⊢
  cases lower : char.isLower with
  | true =>
      rw [cut_lower lower] at left ⊢
      obtain ⟨taken, dropped⟩ := span_front left
      rw [cut_lower lower, taken, dropped]
  | false =>
      cases digit : char.isDigit with
      | true =>
          rw [cut_digit lower digit] at left ⊢
          obtain ⟨taken, dropped⟩ := span_front left
          rw [cut_digit lower digit, taken, dropped]
      | false =>
          rw [cut_single lower digit] at left ⊢
          rw [cut_single lower digit, List.append_cancel_right left]

theorem span_append {test : Char → Bool} {front : List Char} (left : front.dropWhile test ≠ [])
    (back : List Char) :
    (front ++ back).takeWhile test = front.takeWhile test ∧
      (front ++ back).dropWhile test = front.dropWhile test ++ back := by
  have some : (front.dropWhile test).isEmpty = false := List.isEmpty_eq_false_iff.mpr left
  have dropped : (front ++ back).dropWhile test = front.dropWhile test ++ back := by
    rw [List.dropWhile_append, some]
    rfl
  exact ⟨(span_front dropped).1.symm, dropped⟩

/-- A cut does not look beyond a front that it leaves something of, nor beyond a single character
that starts no run. -/
theorem cut_append {char : Char} {front : List Char}
    (apart : (cut (char :: front)).2 ≠ [] ∨ char.isLower = false ∧ char.isDigit = false)
    (back : List Char) :
    cut (char :: front ++ back) = ((cut (char :: front)).1, (cut (char :: front)).2 ++ back) := by
  rw [List.cons_append]
  cases lower : char.isLower with
  | true =>
      rw [cut_lower lower] at apart ⊢
      have left : front.dropWhile isWordChar ≠ [] := by simpa [lower] using apart
      obtain ⟨taken, dropped⟩ := span_append left back
      rw [cut_lower lower, taken, dropped]
  | false =>
      cases digit : char.isDigit with
      | true =>
          rw [cut_digit lower digit] at apart ⊢
          have left : front.dropWhile Char.isDigit ≠ [] := by simpa [digit] using apart
          obtain ⟨taken, dropped⟩ := span_append left back
          rw [cut_digit lower digit, taken, dropped]
      | false => rw [cut_single lower digit, cut_single lower digit]

theorem lexemes_cons (char : Char) (rest : List Char) :
    lexemes (char :: rest) = (cut (char :: rest)).1 :: lexemes (cut (char :: rest)).2 := by
  rw [lexemes, cut]
  split
  · rfl
  · split <;> rfl

end Descent.Text
