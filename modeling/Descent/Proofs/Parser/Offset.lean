import Descent.Proofs.Parser.Completing

/-!
The offsets of syntax errors. The offset of an error is the width of the text in front of the place
that it tells, and a parser that slices leaves such a place. Main statement: a complete parse tells the
first character behind a match that is not an ASCII space, or the place where the parser fails, and
spaces in front of a token count in the offset and nowhere else.
-/

namespace Descent

open Text

namespace SyntaxError

/-- The place that the error tells, as the rest of the input from there on. -/
def IsAt (error : SyntaxError) (input place : List Char) : Prop :=
  ∃ front, front ++ place = input ∧ byteLength front = error.offset

/-- The error as it reads with so many more bytes in front of the input. -/
def shift (error : SyntaxError) (width : Nat) : SyntaxError := ⟨width + error.offset⟩

theorem is_at_of_suffix {input place : List Char} (suffix : place <:+ input) :
    IsAt ⟨byteLength input - byteLength place⟩ input place := by
  obtain ⟨front, rfl⟩ := suffix
  refine ⟨front, rfl, ?_⟩
  rw [byte_length_append, Nat.add_sub_cancel]

/-- An input and a place in it determine the error. -/
theorem IsAt.unique {error other : SyntaxError} {input place : List Char}
    (told : error.IsAt input place) (again : other.IsAt input place) : error = other := by
  obtain ⟨front, split, width⟩ := told
  obtain ⟨front', split', width'⟩ := again
  have same : front = front' := List.append_cancel_right (split.trans split'.symm)
  rw [SyntaxError.mk.injEq, ← width, ← width', same]

end SyntaxError

namespace Text

theorem is_space_iff (char : Char) :
    isSpace char = true ↔ char ∈ [' ', '\t', '\n', '\x0c', '\r'] := by
  simp [isSpace, or_assoc]

theorem trim_gap {gap after : List Char} {char : Char}
    (spaces : ∀ space ∈ gap, isSpace space = true) (visible : isSpace char = false) :
    trim (gap ++ char :: after) = char :: after := by
  rw [trim_append_of_spaces (trim_eq_nil.mpr spaces), trim_other visible]

/-- The spaces in front and the trimmed text make up the width. -/
theorem byte_length_trim (text : List Char) :
    byteLength (text.takeWhile isSpace) + byteLength (trim text) = byteLength text := by
  rw [← byte_length_append, spaces_append_trim]

theorem byte_length_suffix {rest text : List Char} (suffix : rest <:+ text) :
    byteLength rest ≤ byteLength text := by
  obtain ⟨front, rfl⟩ := suffix
  rw [byte_length_append]
  exact Nat.le_add_left _ _

theorem byte_length_eq_zero {text : List Char} (none : byteLength text = 0) : text = [] := by
  cases text with
  | nil => rfl
  | cons char rest =>
      have some := char.utf8Size_pos
      unfold byteLength at none
      omega

theorem eq_of_byte_length {rest text : List Char} (suffix : rest <:+ text)
    (same : byteLength rest = byteLength text) : rest = text := by
  obtain ⟨front, rfl⟩ := suffix
  rw [byte_length_append] at same
  have none : byteLength front = 0 := by omega
  rw [byte_length_eq_zero none, List.nil_append]

end Text

namespace Parser

variable {α : Type} {parser : Parser α} {input rest stop : List Char} {value : α}

/-- Behind a match, the error is at the first character that is not a space. -/
theorem complete_behind_match (slices : parser.Slices) (run : parser input = .matched value rest)
    (left : trim rest ≠ []) :
    ∃ error, parser.complete input = .error error ∧ error.IsAt input (trim rest) := by
  have suffix : trim rest <:+ input := (trim_suffix rest).trans (slices.matched_suffix run)
  refine ⟨_, ?_, SyntaxError.is_at_of_suffix suffix⟩
  rw [complete_of_matched run, if_neg left]

theorem complete_at_failure (slices : parser.Slices) (run : parser input = .failed stop) :
    ∃ error, parser.complete input = .error error ∧ error.IsAt input stop := by
  have suffix := slices input
  rw [run] at suffix
  exact ⟨_, complete_of_failed run, SyntaxError.is_at_of_suffix suffix⟩

/-- Widths from the start of the trimmed text, and from the start of the whole. -/
theorem offset_shift {place : List Char} (suffix : place <:+ trim input) :
    (⟨byteLength input - byteLength place⟩ : SyntaxError) =
      SyntaxError.shift ⟨byteLength (trim input) - byteLength place⟩
        (byteLength (input.takeWhile isSpace)) := by
  have whole := byte_length_trim input
  have kept := byte_length_suffix suffix
  simp only [SyntaxError.shift, SyntaxError.mk.injEq]
  omega

theorem complete_token (slices : parser.Slices) (input : List Char) :
    (token parser).complete input =
      (parser.complete (trim input)).mapError fun error =>
        error.shift (byteLength (input.takeWhile isSpace)) := by
  have suffix := slices (trim input)
  cases run : parser (trim input) with
  | failed stop =>
      have failed : token parser input = .failed stop := by
        rw [token_apply, run]
        rfl
      rw [run, Outcome.rest_failed] at suffix
      rw [complete_of_failed failed, complete_of_failed run, offset_shift suffix]
      rfl
  | matched value rest =>
      have matched : token parser input = .matched value (trim rest) := by
        rw [token_apply, run]
        rfl
      rw [run] at suffix
      rw [complete_of_matched matched, complete_of_matched run, trim_trim]
      split
      · rfl
      · rw [offset_shift ((trim_suffix rest).trans suffix)]
        rfl

theorem complete_parses_are_exact (parser : Parser α) (slices : parser.Slices)
    (input : List Char) :
    (∀ char, isSpace char = true ↔ char ∈ [' ', '\t', '\n', '\x0c', '\r']) ∧
    (∀ value, parser.complete input = .ok value ↔
      ∃ rest, parser input = .matched value rest ∧ ∀ char ∈ rest, isSpace char = true) ∧
    (∀ value gap char after, parser input = .matched value (gap ++ char :: after) →
      (∀ space ∈ gap, isSpace space = true) → isSpace char = false →
      ∃ error, parser.complete input = .error error ∧ error.IsAt input (char :: after)) ∧
    (∀ stop, parser input = .failed stop →
      ∃ error, parser.complete input = .error error ∧ error.IsAt input stop) ∧
    (token parser).complete input =
      (parser.complete (input.dropWhile isSpace)).mapError fun error =>
        error.shift (byteLength (input.takeWhile isSpace)) := by
  refine ⟨is_space_iff, ?_, ?_, fun stop => complete_at_failure slices,
    complete_token slices input⟩
  · intro value
    simp only [complete_ok, trim_eq_nil]
  · intro value gap char after run spaces visible
    have first : trim (gap ++ char :: after) = char :: after := trim_gap spaces visible
    have reached := complete_behind_match slices run (by rw [first]; exact List.cons_ne_nil _ _)
    rwa [first] at reached

/-- A letter of two bytes counts as two, and a space beyond ASCII is an unexpected character. -/
theorem wide_characters_are_counted :
    (character 'é').Slices ∧
    (character 'é' ['é', ' ', '\u00a0'] = .matched 'é' ([' '] ++ '\u00a0' :: []) ∧
      (∀ space ∈ [' '], isSpace space = true) ∧ isSpace '\u00a0' = false ∧
      (character 'é').complete ['é', ' ', '\u00a0'] = .error ⟨3⟩) ∧
    (character 'é' ['\u00a0', 'é'] = .failed ['\u00a0', 'é'] ∧
      (character 'é').complete ['\u00a0', 'é'] = .error ⟨0⟩) ∧
    (token (character 'é')).complete ['\t', 'é', ' ', '\u00a0'] = .error ⟨4⟩ := by
  have slices : (character 'é').Slices := satisfy_slices _
  have blank : ∀ space ∈ [' '], isSpace space = true := List.forall_mem_singleton.mpr rfl
  have visible : isSpace '\u00a0' = false := by decide
  have matched : character 'é' ['é', ' ', '\u00a0'] = .matched 'é' ([' '] ++ '\u00a0' :: []) := rfl
  have failed : character 'é' ['\u00a0', 'é'] = .failed ['\u00a0', 'é'] := rfl
  have behind : (character 'é').complete ['é', ' ', '\u00a0'] = .error ⟨3⟩ := by
    obtain ⟨error, refused, told⟩ :=
      (complete_parses_are_exact _ slices _).2.2.1 _ _ _ _ matched blank visible
    have third : SyntaxError.IsAt ⟨3⟩ ['é', ' ', '\u00a0'] ['\u00a0'] := ⟨['é', ' '], rfl, rfl⟩
    rw [refused, told.unique third]
  have stopped : (character 'é').complete ['\u00a0', 'é'] = .error ⟨0⟩ := by
    obtain ⟨error, refused, told⟩ :=
      (complete_parses_are_exact _ slices _).2.2.2.1 _ failed
    have first : SyntaxError.IsAt ⟨0⟩ ['\u00a0', 'é'] ['\u00a0', 'é'] := ⟨[], rfl, rfl⟩
    rw [refused, told.unique first]
  refine ⟨slices, ⟨matched, blank, visible, behind⟩, ⟨failed, stopped⟩, ?_⟩
  have spaced : ['\t', 'é', ' ', '\u00a0'].dropWhile isSpace = ['é', ' ', '\u00a0'] := by decide
  rw [(complete_parses_are_exact _ slices _).2.2.2.2, spaced, behind]
  rfl

end Parser

end Descent
