import Descent.Proofs.Parser.Alike
import Descent.Proofs.Parser.Listing
import Descent.Proofs.Parser.Offset
import Descent.Proofs.Parser.Trimming

/-!
Tokens and the spaces around them. A token takes all spaces in front of its parser and all spaces behind
what the parser matches, so more of them in front change nothing, and nothing is left for a second token
around the first. Main statement: a token is its parser on the text without the spaces in front, with the
same failures, and it is the same token when it is made one again.
-/

namespace Descent.Parser

open Text

variable {α : Type} {parser : Parser α} {input stop : List Char}

theorem token_gap (parser : Parser α) {gap : List Char} (spaces : IsGap gap) (input : List Char) :
    token parser (gap ++ input) = token parser input := by
  apply token_congr
  exact trim_append_of_spaces (trim_eq_nil.mpr spaces) input

theorem token_visible {value : α} {rest : List Char} (run : token parser input = .matched value rest) :
    ∀ char ∈ rest.head?, isSpace char = false := by
  have trimmed : trim rest = rest := token_trims parser input value rest run
  rw [← trimmed]
  exact trim_visible rest

theorem token_failed : token parser input = .failed stop ↔ parser (trim input) = .failed stop := by
  rw [token_apply]
  cases parser (trim input) with
  | matched value rest => simp
  | failed place => rw [Outcome.and_then_failed]

/-- In the whole text, the failure is as far behind the spaces in front as in the text without them. -/
theorem token_failure_offset (slices : parser.Slices) (failed : parser (trim input) = .failed stop) :
    (token parser input).offsetIn input =
      byteLength (input.takeWhile isSpace) + (parser (trim input)).offsetIn (trim input) := by
  have suffix := slices (trim input)
  rw [failed, Outcome.rest_failed] at suffix
  have kept := byte_length_suffix suffix
  have whole := byte_length_trim input
  rw [token_failed.mpr failed, failed]
  unfold Outcome.offsetIn
  rw [Outcome.rest_failed]
  omega

theorem token_token (parser : Parser α) : token (token parser) = token parser := by
  funext input
  rw [token_apply (token parser)]
  have inner : token parser (trim input) = token parser input := token_congr parser (trim_trim input)
  rw [inner]
  cases run : token parser input with
  | matched value rest =>
      rw [Outcome.and_then_matched, trim_of_visible (token_visible run)]
  | failed stop => rw [Outcome.and_then_failed]

theorem token_absorbs_spaces (parser : Parser α) (slices : parser.Slices) :
    (∀ gap input, IsGap gap → token parser (gap ++ input) = token parser input) ∧
    (∀ input value rest, token parser input = .matched value rest ↔
      ∃ middle, parser (input.dropWhile isSpace) = .matched value middle ∧
        middle.dropWhile isSpace = rest) ∧
    (∀ input value rest, token parser input = .matched value rest →
      ∀ char ∈ rest.head?, isSpace char = false) ∧
    (∀ input stop, token parser input = .failed stop ↔
      parser (input.dropWhile isSpace) = .failed stop) ∧
    (∀ input stop, parser (input.dropWhile isSpace) = .failed stop →
      (token parser input).offsetIn input = byteLength (input.takeWhile isSpace) +
        (parser (input.dropWhile isSpace)).offsetIn (input.dropWhile isSpace)) ∧
    token (token parser) = token parser := by
  refine ⟨?_, ?_, ?_, ?_, ?_, token_token parser⟩
  · intro gap input spaces
    exact token_gap parser spaces input
  · intro input value rest
    exact token_matched
  · intro input value rest run
    exact token_visible run
  · intro input stop
    exact token_failed
  · intro input stop failed
    exact token_failure_offset slices failed

/-- A letter and a digit, with spaces around both of them together. The failure behind the letter stays
where it is. -/
theorem spaces_around_pair_are_absorbed :
    (Parser.sequence (letter, digit)).Slices ∧ IsGap ['\t', '\n'] ∧
      token (Parser.sequence (letter, digit)) "\t\n a1 \x0c;".toList =
        token (Parser.sequence (letter, digit)) " a1 \x0c;".toList ∧
      token (Parser.sequence (letter, digit)) " a1 \x0c;".toList = .matched ('a', '1') [';'] ∧
      (∀ char ∈ [';'].head?, isSpace char = false) ∧
      Parser.sequence (letter, digit) ['a', ' ', '1'] = .failed [' ', '1'] ∧
      token (Parser.sequence (letter, digit)) "\n\ra 1".toList = .failed [' ', '1'] ∧
      (token (Parser.sequence (letter, digit)) "\n\ra 1".toList).offsetIn "\n\ra 1".toList = 3 := by
  have slices : (Parser.sequence (letter, digit)).Slices :=
    pair_slices (satisfy_slices _) (satisfy_slices _)
  obtain ⟨absorbs, matches', visible, fails, offset, -⟩ := token_absorbs_spaces _ slices
  have gap : IsGap ['\t', '\n'] :=
    List.forall_mem_cons.mpr ⟨rfl, List.forall_mem_singleton.mpr rfl⟩
  have found : token (Parser.sequence (letter, digit)) " a1 \x0c;".toList =
      .matched ('a', '1') [';'] := (matches' _ _ _).mpr ⟨[' ', '\x0c', ';'], rfl, rfl⟩
  have apart : Parser.sequence (letter, digit) ['a', ' ', '1'] = .failed [' ', '1'] := rfl
  have placed := offset "\n\ra 1".toList [' ', '1'] apart
  refine ⟨slices, gap, absorbs _ " a1 \x0c;".toList gap, found, visible _ _ _ found, apart,
    (fails _ _).mpr apart, ?_⟩
  rw [placed]
  rfl

end Descent.Parser
