import Descent.Proofs.Parser.Completing
import Descent.Proofs.Parser.Reach
import Descent.Proofs.Seams

/-!
The prefixes of a text that a complete parse accepts. A parser reads a language if everything that it
matches is a phrase, and if it matches up to the end of every phrase, or beyond where the text goes on
with it. Main statement: if a complete parse with such a parser fails, the error is behind the longest
prefix that it accepts, unless it accepts none and the parser fails by itself.
-/

namespace Descent.Parser

open Text

variable {α : Type} {lexicon : Lexicon} {parser : Parser α} {language : List Token → α → Prop}
  {input : List Char}

structure ReadsLanguage (lexicon : Lexicon) (parser : Parser α)
    (language : List Token → α → Prop) : Prop where
  slices : parser.Slices
  recognizes : ∀ input value rest, parser input = .matched value rest →
    ∃ tokens, lexicon.Reads input tokens rest ∧ language tokens value
  covers : ∀ tokens value, language tokens value →
    ∀ place rest, lexicon.Reads place tokens rest → parser.Reaches place rest

/-- The parser accepts the front as a whole text, and the text does not go on with its last lexeme. -/
def AcceptsPrefix (parser : Parser α) (input front : List Char) : Prop :=
  ∃ back value, front ++ back = input ∧ IsSeam front back ∧ parser.complete front = .ok value

namespace ReadsLanguage

/-- A text that writes a phrase is accepted, as nothing goes on with the phrase at its end. -/
theorem accepts (reading : ReadsLanguage lexicon parser language) {tokens : List Token} {value : α}
    (reads : lexicon.Reads input tokens []) (phrase : language tokens value) :
    ∃ found, parser.complete input = .ok found := by
  obtain ⟨found, last, run, beyond⟩ := reading.covers _ _ phrase _ _ reads input rfl
  exact ⟨found, complete_ok.mpr ⟨last, run, List.suffix_nil.mp beyond⟩⟩

/-- What is matched of a text, with the spaces behind it, is accepted as a whole text. -/
theorem matched_prefix (reading : ReadsLanguage lexicon parser language) {value : α}
    {rest : List Char} (run : parser input = .matched value rest) :
    ∃ front, front ++ trim rest = input ∧ parser.AcceptsPrefix input front := by
  obtain ⟨front, whole⟩ := (trim_suffix rest).trans (reading.slices.matched_suffix run)
  obtain ⟨tokens, reads, phrase⟩ := reading.recognizes input value rest run
  have ended := reads.congr_right (trim_trim rest).symm
  rw [← whole] at ended
  obtain ⟨found, accepted⟩ :=
    reading.accepts (Lexicon.reads_front ended (trim_trim rest)) phrase
  exact ⟨front, whole, _, found, whole, Lexicon.seam_of_reads ended (trim_trim rest), accepted⟩

/-- A prefix that is accepted does not reach beyond what is matched of the text. -/
theorem prefix_reaches (reading : ReadsLanguage lexicon parser language) {front : List Char}
    (begins : parser.AcceptsPrefix input front) :
    ∃ value rest, parser input = .matched value rest ∧
      front.length ≤ input.length - (trim rest).length := by
  obtain ⟨back, value, rfl, seam, accepted⟩ := begins
  obtain ⟨last, run, blank⟩ := complete_ok.mp accepted
  obtain ⟨tokens, reads, phrase⟩ := reading.recognizes front value last run
  have covered := Lexicon.reads_before_seam (reads.congr_right blank) seam
  obtain ⟨found, rest, matched, beyond⟩ := reading.covers _ _ phrase _ _ covered _ rfl
  refine ⟨found, rest, matched, ?_⟩
  have kept := (beyond.trans (trim_suffix back)).length_le
  rw [List.length_append]
  omega

theorem no_prefix_of_failed (reading : ReadsLanguage lexicon parser language) {stop : List Char}
    (run : parser input = .failed stop) (front : List Char) :
    ¬ parser.AcceptsPrefix input front := by
  intro begins
  obtain ⟨value, rest, matched, -⟩ := reading.prefix_reaches begins
  rw [run] at matched
  contradiction

theorem longest_of_matched (reading : ReadsLanguage lexicon parser language) {value : α}
    {rest : List Char} (run : parser input = .matched value rest) :
    ∃ front, front ++ trim rest = input ∧ parser.AcceptsPrefix input front ∧
      ∀ other, parser.AcceptsPrefix input other → other <+: front := by
  obtain ⟨front, whole, begins⟩ := reading.matched_prefix run
  refine ⟨front, whole, begins, ?_⟩
  intro other starts
  obtain ⟨found, last, again, shorter⟩ := reading.prefix_reaches starts
  cases run.symm.trans again
  obtain ⟨back, -, split, -⟩ := starts
  have lengths := congrArg List.length whole
  rw [List.length_append] at lengths
  exact List.prefix_of_prefix_length_le ⟨back, split⟩ ⟨_, whole⟩ (by omega)

theorem error_ends_longest (reading : ReadsLanguage lexicon parser language) {error : SyntaxError}
    (failed : parser.complete input = .error error) :
    (∃ front, parser.AcceptsPrefix input front ∧ byteLength front = error.offset ∧
        ∀ other, parser.AcceptsPrefix input other → other <+: front) ∨
      (∀ front, ¬ parser.AcceptsPrefix input front) ∧
        ∃ stop, parser input = .failed stop ∧
          error.offset = byteLength input - byteLength stop := by
  cases run : parser input with
  | failed stop =>
      right
      rw [complete_of_failed run] at failed
      cases failed
      exact ⟨reading.no_prefix_of_failed run, stop, rfl, rfl⟩
  | matched value rest =>
      left
      obtain ⟨front, whole, begins, longest⟩ := reading.longest_of_matched run
      rw [complete_of_matched run] at failed
      split at failed
      · contradiction
      · cases failed
        have widths := congrArg byteLength whole
        rw [byte_length_append] at widths
        exact ⟨front, begins, Nat.eq_sub_of_add_eq widths, longest⟩

end ReadsLanguage

end Descent.Parser
