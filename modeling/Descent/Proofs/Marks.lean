import Descent.Proofs.Arithmetic.LongestPrefix
import Descent.Proofs.Parser.Offset
import Descent.Proofs.Script.LongestExpression
import Descent.Proofs.Text.Bytes

/-!
What stands at the offset of a syntax error. Most failures are noticed behind the spaces that a token
skips, and then the error marks the unexpected character or the end of the text. A word that is refused
because it is a keyword fails in front of these spaces. Main statement: the errors of the calculator and
of scripts mark what is unexpected, and so do the errors of single expressions, unless spaces and a
keyword stand at the start of the text.
-/

namespace Descent

open Descent.Parser Text

namespace SyntaxError

/-- The offset is a place of the text. -/
structure InText (error : SyntaxError) (input : List Char) : Prop where
  within : error.offset ≤ byteLength input
  boundary : IsBoundary input error.offset

/-- The text ends at the offset, or goes on there with a character that is not an ASCII space. -/
structure Marks (error : SyntaxError) (input : List Char) : Prop extends error.InText input where
  visible : ∃ place, error.IsAt input place ∧ ∀ char ∈ place.head?, isSpace char = false

variable {error : SyntaxError} {input place : List Char}

theorem IsAt.in_text (told : error.IsAt input place) : error.InText input := by
  obtain ⟨front, rfl, width⟩ := told
  constructor
  · rw [← width, byte_length_append]
    exact Nat.le_add_right _ _
  · rw [← width]
    exact boundary_append front place

theorem IsAt.marks (told : error.IsAt input place) (trimmed : trim place = place) :
    error.Marks input where
  toInText := told.in_text
  visible := by
    have visible := trim_visible place
    rw [trimmed] at visible
    exact ⟨place, told, visible⟩

theorem is_at_start (input : List Char) : IsAt ⟨0⟩ input input := ⟨[], rfl, rfl⟩

/-- At the start of a text that starts with a space, nothing is marked. -/
theorem not_marks_of_space {char : Char} (space : isSpace char = true) (rest : List Char) :
    ¬ Marks ⟨0⟩ (char :: rest) := by
  intro marks
  obtain ⟨place, ⟨front, whole, none⟩, visible⟩ := marks.visible
  rw [byte_length_eq_zero none, List.nil_append] at whole
  subst whole
  rw [visible char rfl] at space
  contradiction

end SyntaxError

namespace Parser

variable {α : Type} {parser : Parser α} {input : List Char} {error : SyntaxError}

/-- The error of a complete parse tells a place, and one behind spaces unless the parser fails in
front of them. -/
theorem complete_error_at (slices : parser.Slices) (refused : parser.complete input = .error error) :
    error.Marks input ∨ ∃ stop, parser input = .failed stop ∧ error.IsAt input stop := by
  cases run : parser input with
  | failed stop =>
      right
      obtain ⟨found, again, told⟩ := complete_at_failure slices run
      cases refused.symm.trans again
      exact ⟨stop, rfl, told⟩
  | matched value rest =>
      left
      have left : trim rest ≠ [] := by
        intro blank
        have accepted := complete_of_matched run
        rw [if_pos blank, refused] at accepted
        contradiction
      obtain ⟨found, again, told⟩ := complete_behind_match slices run left
      cases refused.symm.trans again
      exact told.marks (trim_trim rest)

end Parser

theorem Arithmetic.Calculator.error_marks {calculator : Arithmetic.Calculator} {input : List Char}
    {error : SyntaxError} (failed : calculator.parse input = .error error) : error.Marks input := by
  rcases complete_error_at (Arithmetic.parser_slices _ _) failed with marks | ⟨stop, run, told⟩
  · exact marks
  · rw [Arithmetic.expression_failed run] at told
    exact told.marks (trim_trim input)

namespace Script

variable {source : List Char} {error : SyntaxError}

theorem program_error_marks (failed : parseProgram source = .error error) :
    error.Marks source := by
  obtain ⟨front, whole, width⟩ := parse_program_error failed
  have told : error.IsAt source _ := ⟨front, whole.symm, width⟩
  exact told.marks (trim_trim _)

/-- The first token of the text is a keyword. -/
def StartsWithKeyword (source : List Char) : Prop :=
  ∃ text ∈ keywords, ∃ rest, lexicon.next? source = some (.word text, rest)

/-- Where a keyword is refused, the error is in front of the spaces before it, if there are any. -/
theorem expression_error_marks (failed : parseExpression source = .error error) :
    error.InText source ∧ (error.Marks source ∨ error.offset = 0 ∧
      (∃ char ∈ source.head?, isSpace char = true) ∧ StartsWithKeyword source) := by
  rcases complete_error_at (parser_slices .expression) failed with marks | ⟨stop, run, told⟩
  · exact ⟨marks.toInText, .inl marks⟩
  · refine ⟨told.in_text, ?_⟩
    rcases variable_name_failed_at (name_failed_of_expression run) with rfl | ⟨rfl, keyword⟩
    · exact .inl (told.marks (trim_trim source))
    · have start := told.unique (SyntaxError.is_at_start stop)
      cases stop with
      | nil => exact .inl (told.marks rfl)
      | cons char rest =>
          cases space : isSpace char with
          | false => exact .inl (told.marks (trim_other space rest))
          | true =>
              right
              exact ⟨congrArg SyntaxError.offset start, ⟨char, rfl, space⟩, keyword⟩

end Script

open Arithmetic in
theorem errors_mark_tokens :
    (∀ (calculator : Calculator) input error, calculator.parse input = .error error →
      error.Marks input) ∧
    (∀ source error, Script.parseProgram source = .error error → error.Marks source) ∧
    ∀ source error, Script.parseExpression source = .error error →
      error.InText source ∧ (error.Marks source ∨ error.offset = 0 ∧
        (∃ char ∈ source.head?, isSpace char = true) ∧ Script.StartsWithKeyword source) :=
  ⟨fun _ _ _ => Calculator.error_marks, fun _ _ => Script.program_error_marks,
    fun _ _ => Script.expression_error_marks⟩

/-- A space beyond ASCII is unexpected itself, a statement without its end is unexpected from its start
on, and a parenthesis is told behind the space in front of it. -/
theorem wide_space_is_marked :
    (Arithmetic.Calculator.parse ⟨.left⟩ ['1', ' ', '\u00a0'] = .error ⟨2⟩ ∧
      SyntaxError.Marks ⟨2⟩ ['1', ' ', '\u00a0']) ∧
    (Script.parseProgram "a; b + ".toList = .error ⟨3⟩ ∧
      SyntaxError.Marks ⟨3⟩ "a; b + ".toList) ∧
    (Script.parseExpression " )".toList = .error ⟨1⟩ ∧ SyntaxError.Marks ⟨1⟩ " )".toList) := by
  obtain ⟨calculators, programs, expressions⟩ := errors_mark_tokens
  have number : Arithmetic.Calculator.expression ⟨.left⟩ ['1', ' ', '\u00a0'] =
      .matched (.number 1) ['\u00a0'] := by decide +kernel
  have numberError : Arithmetic.Calculator.parse ⟨.left⟩ ['1', ' ', '\u00a0'] = .error ⟨2⟩ := by
    rw [Arithmetic.Calculator.parse, complete_of_matched number]
    rfl
  have stops : trim (advance (Script.parser .statement) "a; b + ".toList).2 = "b + ".toList := by
    decide +kernel
  have programError : Script.parseProgram "a; b + ".toList = .error ⟨3⟩ := by
    rw [Script.parse_program_eq, stops]
    rfl
  have closing : Script.parser .expression " )".toList = .failed ")".toList := by decide +kernel
  have closingError : Script.parseExpression " )".toList = .error ⟨1⟩ := by
    rw [Script.parseExpression, complete_of_failed closing]
    rfl
  refine ⟨⟨numberError, calculators _ _ _ numberError⟩,
    ⟨programError, programs _ _ programError⟩, closingError, ?_⟩
  rcases (expressions _ _ closingError).2 with marks | ⟨start, -⟩
  · exact marks
  · exact absurd start (by decide)

/-- A keyword that starts no expression is refused where the space before it starts. -/
theorem error_in_front_of_space :
    Script.parseExpression " else".toList = .error ⟨0⟩ ∧
      ¬ SyntaxError.Marks ⟨0⟩ " else".toList := by
  have keyword : Script.parser .expression " else".toList = .failed " else".toList := by
    decide +kernel
  refine ⟨?_, SyntaxError.not_marks_of_space rfl _⟩
  rw [Script.parseExpression, complete_of_failed keyword]
  rfl

end Descent
