import Descent.Parser.Complete
import Descent.Proofs.Parser.Slicing

/-!
Complete parses, in terms of where the parser stops: what is left over has to be blank, and
otherwise the error is at its first character that is not a space.
-/

namespace Descent.Parser

open Text

variable {α : Type}

theorem end_of_input_apply (input : List Char) :
    precededBy skipSpace endOfInput input =
      if trim input = [] then .matched () [] else .failed (trim input) := by
  rw [precededBy, bind_apply, skip_space_apply, Outcome.and_then_matched]
  cases trim input <;> rfl

theorem finished_of_matched {parser : Parser α} {input rest : List Char} {value : α}
    (run : parser input = .matched value rest) :
    terminatedBy parser (precededBy skipSpace endOfInput) input =
      if trim rest = [] then .matched value [] else .failed (trim rest) := by
  rw [terminatedBy, bind_apply, run, Outcome.and_then_matched, bind_apply, end_of_input_apply]
  split <;> rfl

theorem finished_of_failed {parser : Parser α} {input stop : List Char}
    (run : parser input = .failed stop) :
    terminatedBy parser (precededBy skipSpace endOfInput) input = .failed stop := by
  rw [terminatedBy, bind_apply, run, Outcome.and_then_failed]

theorem complete_of_matched {parser : Parser α} {input rest : List Char} {value : α}
    (run : parser input = .matched value rest) :
    parser.complete input =
      if trim rest = [] then .ok value
      else .error ⟨byteLength input - byteLength (trim rest)⟩ := by
  simp only [complete, finished_of_matched run]
  by_cases blank : trim rest = []
  · simp only [if_pos blank]
  · simp only [if_neg blank]
    rfl

theorem complete_of_failed {parser : Parser α} {input stop : List Char}
    (run : parser input = .failed stop) :
    parser.complete input = .error ⟨byteLength input - byteLength stop⟩ := by
  simp only [complete, finished_of_failed run]
  rfl

/-- A complete parse returns a value exactly when the parser leaves nothing but spaces. -/
theorem complete_ok {parser : Parser α} {input : List Char} {value : α} :
    parser.complete input = .ok value ↔
      ∃ rest, parser input = .matched value rest ∧ trim rest = [] := by
  cases run : parser input with
  | failed stop => simp [complete_of_failed run]
  | matched found rest =>
      rw [complete_of_matched run]
      constructor
      · intro done
        split at done
        · next blank =>
            cases done
            exact ⟨rest, rfl, blank⟩
        · contradiction
      · intro given
        obtain ⟨last, same, blank⟩ := given
        cases same
        exact if_pos blank

end Descent.Parser
