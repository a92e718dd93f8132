import Descent.Proofs.Reading

/-!
Writing tokens and reading them back. The tokens of a lexicon are those that a text can be read as.
Main statement: a text that writes tokens of a lexicon is read as these tokens, whatever spaces stand
between them.
-/

namespace Descent

namespace Text

/-- A lowercase letter, and characters of words after it. -/
def IsIdentifier (text : String) : Prop :=
  ∃ first others, text.toList = first :: others ∧ first.isLower ∧ ∀ char ∈ others, isWordChar char

theorem not_word_char {char : Char} (other : isWordChar char = false) :
    char.isLower = false ∧ char.isDigit = false := by
  obtain ⟨alphanumeric, -⟩ := Bool.or_eq_false_iff.mp other
  obtain ⟨letter, digit⟩ := Bool.or_eq_false_iff.mp alphanumeric
  exact ⟨(Bool.or_eq_false_iff.mp letter).2, digit⟩

theorem word_char {char : Char} (known : char.isLower = true ∨ char.isDigit = true) :
    isWordChar char = true := by
  by_contra other
  obtain ⟨lower, digit⟩ := not_word_char (Bool.eq_false_iff.mpr other)
  simp [lower, digit] at known

theorem space_not_word_char {char : Char} (space : isSpace char = true) :
    isWordChar char = false := by
  simp only [isSpace, Bool.or_eq_true, beq_iff_eq] at space
  rcases space with (((rfl | rfl) | rfl) | rfl) | rfl <;> rfl

theorem decimal_value_digits (value : Nat) : decimalValue (Nat.toDigits 10 value) = value := by
  have folded := @Nat.ofDigitChars_eq_foldl 10 (Nat.toDigits 10 value) 0
  rw [Nat.ofDigitChars_ten_toDigits] at folded
  simp only [Nat.mul_comm 10] at folded
  exact folded.symm

theorem all_digits (value : Nat) : ∀ char ∈ Nat.toDigits 10 value, char.isDigit = true :=
  fun _ => Nat.isDigit_of_mem_toDigits (by decide) (by decide)

theorem digits_visible (value : Nat) :
    ∃ first others, Nat.toDigits 10 value = first :: others ∧ first.isDigit = true ∧
      ∀ char ∈ others, char.isDigit = true := by
  have digit := all_digits value
  obtain ⟨first, others, same⟩ := List.exists_cons_of_ne_nil (Nat.toDigits_ne_nil (n := value))
  rw [same] at digit
  exact ⟨first, others, same, List.forall_mem_cons.mp digit⟩

theorem span_run {α : Type} {test : α → Bool} {run rest : List α}
    (passes : ∀ item ∈ run, test item) (ended : ∀ item ∈ rest.head?, test item = false) :
    (run ++ rest).takeWhile test = run ∧ (run ++ rest).dropWhile test = rest := by
  rw [List.takeWhile_append_of_pos passes, List.dropWhile_append_of_pos passes]
  cases rest with
  | nil => simp
  | cons item rest => simp [ended item rfl]

/-- A list falls apart in one way only into items that pass and a rest that starts with none. -/
theorem run_injective {α : Type} (test : α → Bool) {run rest other following : List α}
    (passes : ∀ item ∈ run, test item) (ended : ∀ item ∈ rest.head?, test item = false)
    (passesOther : ∀ item ∈ other, test item)
    (endedOther : ∀ item ∈ following.head?, test item = false)
    (same : run ++ rest = other ++ following) : run = other ∧ rest = following := by
  have first := span_run passes ended
  have second := span_run passesOther endedOther
  rw [same] at first
  exact ⟨first.1.symm.trans second.1, first.2.symm.trans second.2⟩

end Text

open Text

namespace Lexicon

variable {lexicon : Lexicon}

/-- The token is one of the lexicon. -/
def Holds (lexicon : Lexicon) : Token → Prop
  | .word text => lexicon.hasWords = true ∧ IsIdentifier text
  | .numeral value => lexicon.admits value = true
  | .sign char => char ∈ lexicon.signs

theorem next_holds {input middle : List Char} {token : Token}
    (first : lexicon.next? input = some (token, middle)) : lexicon.Holds token := by
  cases token with
  | word text =>
      obtain ⟨char, rest, start, lower, rfl, -⟩ := next_word first
      have words : lexicon.hasWords = true := by
        rw [next?, start, cut_lower lower] at first
        cases words : lexicon.hasWords with
        | true => rfl
        | false => simp [token?, lower, words] at first
      exact ⟨words, char, _, String.toList_ofList, lower, fun _ => List.mem_takeWhile_imp⟩
  | numeral value =>
      obtain ⟨_, _, _, _, admitted, _⟩ := next_numeral first
      exact admitted
  | sign char => exact (next_sign first).2

theorem Reads.holds {input rest : List Char} {tokens : List Token}
    (reads : lexicon.Reads input tokens rest) : ∀ token ∈ tokens, lexicon.Holds token := by
  induction reads with
  | done same => simp
  | next first others ih => exact List.forall_mem_cons.mpr ⟨next_holds first, ih⟩

/-- The signs that are read off a text are characters of it. -/
theorem Reads.sign_mem {input rest : List Char} {tokens : List Token} {char : Char}
    (reads : lexicon.Reads input tokens rest) (member : .sign char ∈ tokens) : char ∈ input := by
  induction reads with
  | done same => exact absurd member List.not_mem_nil
  | @next input middle rest token tokens first others ih =>
      rcases List.mem_cons.mp member with rfl | later
      · have start : char ∈ trim input := (next_sign first).1 ▸ List.mem_cons_self
        exact (trim_suffix input).subset start
      · exact ((next_suffix first).trans (trim_suffix input)).subset (ih later)

/-- No sign can be taken for a space or for a part of a word. -/
def Plain (lexicon : Lexicon) : Prop :=
  ∀ char ∈ lexicon.signs, isWordChar char = false ∧ isSpace char = false

theorem plain_of_all
    (checked : lexicon.signs.all (fun char => !isWordChar char && !isSpace char) = true) :
    lexicon.Plain := by
  intro char known
  simpa using List.all_eq_true.mp checked char known

/-- A token of the lexicon is cut off where nothing goes on with it, and it is recognized. -/
theorem next_text {token : Token} (plain : lexicon.Plain) (held : lexicon.Holds token)
    {rest : List Char}
    (ended : token.isWordlike = true → ∀ char ∈ rest.head?, isWordChar char = false) :
    lexicon.next? (token.text ++ rest) = some (token, rest) := by
  cases token with
  | word text =>
      obtain ⟨words, first, others, same, lower, letters⟩ := held
      obtain ⟨taken, dropped⟩ := span_run letters (ended rfl)
      have visible : isSpace first = false := by
        cases space : isSpace first with
        | false => rfl
        | true => rw [(not_word_char (space_not_word_char space)).1] at lower; contradiction
      rw [Token.text, same, List.cons_append, next_lower (trim_other visible _) lower words, taken,
        dropped, ← same, String.ofList_toList]
  | numeral value =>
      obtain ⟨first, others, same, digit, digits⟩ := digits_visible value
      have stops : ∀ char ∈ rest.head?, char.isDigit = false :=
        fun char start => (not_word_char (ended rfl char start)).2
      obtain ⟨taken, dropped⟩ := span_run digits stops
      rw [Token.text, same, List.cons_append,
        next_digit (trim_other (digit_not_space digit) _) (digit_not_lower digit) digit, taken,
        dropped, ← same, decimal_value_digits]
      exact if_pos held
  | sign char =>
      obtain ⟨apart, visible⟩ := plain char held
      obtain ⟨lower, digit⟩ := not_word_char apart
      have start : trim ([char] ++ rest) = char :: rest := trim_other visible rest
      rw [Token.text, next_single start lower digit]
      exact if_pos (List.contains_iff_mem.mpr held)

end Lexicon

namespace Token.Written

open Lexicon

variable {lexicon : Lexicon}

/-- A text of tokens goes on with a word only if its first token does. -/
theorem head_apart {tokens : List Token} {text : List Char} (written : Written tokens text)
    (plain : lexicon.Plain) (held : ∀ token ∈ tokens, lexicon.Holds token)
    (other : ∀ token ∈ tokens.head?, token.isWordlike = false) :
    ∀ char ∈ text.head?, isWordChar char = false := by
  intro char start
  cases written with
  | nil spaces => exact space_not_word_char (spaces char (List.mem_of_mem_head? start))
  | @cons gap rest token tokens spaces apart following =>
      cases gap with
      | cons space gap =>
          cases start
          exact space_not_word_char (spaces _ List.mem_cons_self)
      | nil =>
          cases token with
          | word text => exact absurd (other _ rfl) (by simp [isWordlike])
          | numeral value => exact absurd (other _ rfl) (by simp [isWordlike])
          | sign found =>
              cases start
              exact (plain _ (held _ List.mem_cons_self)).1

theorem reads {tokens : List Token} {text : List Char} (written : Written tokens text)
    (plain : lexicon.Plain) (held : ∀ token ∈ tokens, lexicon.Holds token) :
    lexicon.Reads text tokens [] := by
  induction written with
  | nil spaces => exact .done (trim_eq_nil.mpr spaces)
  | @cons gap rest token tokens spaces apart following ih =>
      obtain ⟨first, others⟩ := List.forall_mem_cons.mp held
      have ended : token.isWordlike = true → ∀ char ∈ rest.head?, isWordChar char = false := by
        intro wordlike char start
        by_cases next : ∃ next ∈ tokens.head?, next.isWordlike = true
        · obtain ⟨space, begins, isSpace⟩ := apart wordlike next
          cases Option.mem_unique start begins
          exact space_not_word_char isSpace
        · apply following.head_apart plain others _ char start
          intro token begins
          by_contra other
          exact next ⟨token, begins, by simpa using other⟩
      have skipped : trim (gap ++ token.text ++ rest) = trim (token.text ++ rest) := by
        rw [List.append_assoc, trim_append_of_spaces (trim_eq_nil.mpr spaces)]
      exact (Reads.next (next_text plain first ended) (ih others)).congr_left skipped.symm

/-- All tokens can be written, with a space before each. -/
theorem apart (tokens : List Token) :
    Written tokens (tokens.flatMap fun token => ' ' :: token.text) := by
  induction tokens with
  | nil => exact .nil (List.forall_mem_nil _)
  | cons token tokens ih =>
      refine Written.cons (List.forall_mem_singleton.mpr (rfl : isSpace ' ' = true)) ?_ ih
      rintro - ⟨next, start, -⟩
      obtain ⟨others, rfl⟩ := List.head?_eq_some_iff.mp start
      exact ⟨' ', rfl, rfl⟩

end Token.Written

end Descent
