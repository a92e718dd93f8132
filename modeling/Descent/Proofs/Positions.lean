import Descent.Arithmetic.Calculator
import Descent.Proofs.Arithmetic.Unfolding
import Descent.Proofs.Parser.Composition
import Descent.Proofs.Script.Unfolding
import Descent.Proofs.Text.Bytes
import Descent.Script.Program

/-!
The places that outcomes tell, in bytes. What a parser leaves over starts at a character of its
source, so an offset is never negative, a literal ends at a character, and a recognized text is cut
out at characters. Main statement: this holds of all composed parsers and of all rules of the two
grammars.
-/

namespace Descent

open Text

/-- The rest is what stands in the source from the offset on, and the offset is the place of a
character. -/
structure Outcome.Cuts {α : Type} (outcome : Outcome α) (source : List Char) : Prop where
  suffix : outcome.rest <:+ source
  boundary : IsBoundary source (outcome.offsetIn source)
  /-- The offset is a difference of widths that is not cut off at zero. -/
  width : outcome.offsetIn source + byteLength outcome.rest = byteLength source

theorem byte_length_front (front back : List Char) :
    byteLength (front ++ back) - byteLength back = byteLength front := by
  rw [byte_length_append, Nat.add_sub_cancel]

theorem Outcome.cuts_of_suffix {α : Type} {outcome : Outcome α} {source : List Char}
    (suffix : outcome.rest <:+ source) : outcome.Cuts source := by
  obtain ⟨front, rfl⟩ := suffix
  have offset : outcome.offsetIn (front ++ outcome.rest) = byteLength front :=
    byte_length_front front outcome.rest
  refine ⟨⟨front, rfl⟩, ?_, ?_⟩
  · rw [offset]
    exact boundary_append front outcome.rest
  · rw [offset, byte_length_append]

namespace Parser

theorem Slices.cuts {α : Type} {parser : Parser α} (slices : parser.Slices)
    (source : List Char) : (parser source).Cuts source := Outcome.cuts_of_suffix (slices source)

theorem literal_eq_append {text : String} {source rest : List Char} :
    literal text source = .matched text rest ↔ text.toList ++ rest = source := by
  cases found : text.toList.isPrefixOf? source with
  | none =>
      have differs : text.toList ++ rest ≠ source := by
        intro same
        rw [List.isPrefixOf?_eq_some_iff_append_eq.mpr same] at found
        contradiction
      simp [literal, found, differs]
  | some last =>
      have split := List.append_eq_of_isPrefixOf?_eq_some found
      subst split
      simp [literal, found, eq_comm]

/-- A literal matches if its bytes are the first bytes of the source, and then it leaves all bytes
after them. -/
theorem literal_bytes (text : String) (source : List Char) (bytes : ByteArray) :
    source.utf8Encode = text.toList.utf8Encode ++ bytes ↔
      ∃ rest, literal text source = .matched text rest ∧ rest.utf8Encode = bytes ∧
        IsBoundary source (byteLength text.toList) := by
  constructor
  · intro start
    obtain ⟨rest, rfl, left⟩ := starts_with_bytes start
    exact ⟨rest, literal_eq_append.mpr rfl, left, boundary_append text.toList rest⟩
  · intro given
    obtain ⟨rest, run, rfl, -⟩ := given
    rw [← literal_eq_append.mp run, List.utf8Encode_append]

/-- The text that a parser has consumed, cut out of the source by its bytes. -/
theorem recognize_bytes {α : Type} {parser : Parser α} (slices : parser.Slices)
    {source rest : List Char} {found : α} (run : parser source = .matched found rest) :
    ∃ text, recognize parser source = .matched text rest ∧ text.toList ++ rest = source ∧
      IsBoundary source (byteLength source - byteLength rest) ∧
      text.toList.utf8Encode =
        source.utf8Encode.extract 0 (byteLength source - byteLength rest) := by
  obtain ⟨front, rfl⟩ := slices.matched_suffix run
  rw [byte_length_front, front_bytes]
  refine ⟨String.ofList front, recognize_of_matched run, ?_, boundary_append front rest, ?_⟩
  · rw [String.toList_ofList]
  · rw [String.toList_ofList]

end Parser

open Descent.Parser

theorem Script.program_slices : Script.program.Slices :=
  terminated_by_slices (many_slices (Script.parser_slices _))
    (preceded_by_slices skip_space_slices end_of_input_slices)

theorem parsers_only_slice :
    (∀ (α : Type) (parser : Parser α), parser.Composed → ∀ source,
      (parser source).Cuts source) ∧
    (∀ rule source, (Script.parser rule source).Cuts source) ∧
    (∀ source, (Script.variableName source).Cuts source ∧ (Script.program source).Cuts source) ∧
    (∀ associativity rule source,
      (Arithmetic.parser associativity rule source).Cuts source) ∧
    (∀ text source bytes, source.utf8Encode = text.toList.utf8Encode ++ bytes ↔
      ∃ rest, literal text source = .matched text rest ∧ rest.utf8Encode = bytes ∧
        IsBoundary source (byteLength text.toList)) ∧
    ∀ (α : Type) (parser : Parser α), parser.Composed → ∀ source found rest,
      parser source = .matched found rest →
      ∃ text, recognize parser source = .matched text rest ∧ text.toList ++ rest = source ∧
        IsBoundary source (byteLength source - byteLength rest) ∧
        text.toList.utf8Encode =
          source.utf8Encode.extract 0 (byteLength source - byteLength rest) := by
  refine ⟨?_, ?_, ?_, ?_, literal_bytes, ?_⟩
  · intro α parser composed source
    exact (composed_slices composed).cuts source
  · intro rule source
    exact (Script.parser_slices rule).cuts source
  · intro source
    exact ⟨Script.variable_name_slices.cuts source, Script.program_slices.cuts source⟩
  · intro associativity rule source
    exact (Arithmetic.parser_slices associativity rule).cuts source
  · intro α parser composed source found rest run
    exact recognize_bytes (composed_slices composed) run

theorem accents_are_not_cut_through :
    (many1 (character 'é')).Composed ∧
      many1 (character 'é') ['é', 'é', 'x'] = .matched ['é', 'é'] ['x'] ∧
      (many1 (character 'é') ['é', 'é', 'x']).Cuts ['é', 'é', 'x'] ∧
      ∃ text, recognize (many1 (character 'é')) ['é', 'é', 'x'] = .matched text ['x'] ∧
        text.toList ++ ['x'] = ['é', 'é', 'x'] ∧ IsBoundary ['é', 'é', 'x'] 4 ∧
        text.toList.utf8Encode = ['é', 'é', 'x'].utf8Encode.extract 0 4 := by
  obtain ⟨cuts, -, -, -, -, recognizes⟩ := parsers_only_slice
  have composed : (many1 (character 'é')).Composed := .many1 (.satisfy _)
  have run : many1 (character 'é') ['é', 'é', 'x'] = .matched ['é', 'é'] ['x'] := by
    decide +kernel
  exact ⟨composed, run, cuts _ _ composed _, recognizes _ _ composed _ _ _ run⟩

end Descent
