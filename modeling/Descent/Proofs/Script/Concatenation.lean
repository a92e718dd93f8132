import Descent.Proofs.Script.LongestPrefix

/-!
Scripts written one behind the other. The last token of a script is a sign, so it ends there
whatever is written behind it, and the rows of statements of two scripts make one row. Main
statement: the statements of the whole are those of the first script and then those of the second.
-/

namespace Descent.Script

open Descent.Parser

theorem statements_append {tokens following : List Token} {trees others : List Tree}
    (first : Derives .statements tokens trees) (second : Derives .statements following others) :
    Derives .statements (tokens ++ following) (trees ++ others) := by
  generalize listed : Phrase.statements = phrase at first
  induction first with
  | noStatement => exact second
  | nextStatement statement statements ih ihStatements =>
      rw [List.append_assoc, List.cons_append]
      exact .nextStatement statement (ihStatements listed)
  | _ => cases listed

theorem parse_program_append {front back : List Char} {trees others : List Tree}
    (first : parseProgram front = .ok trees) (second : parseProgram back = .ok others) :
    parseProgram (front ++ back) = .ok (trees ++ others) := by
  obtain ⟨tokens, reads, phrases⟩ := script_reads_before first back
  obtain ⟨following, readsBack, phrasesBack⟩ := derives_of_parse_program second
  exact parse_program_of_derives (reads.append readsBack) (statements_append phrases phrasesBack)

/-- A conditional without an `else` stays as it is in front of a statement in parentheses. -/
theorem parse_conditional_before_sum :
    parseProgram "if (a) \x7b\x7d".toList = .ok [.node "if" [.name "a", .node "block" []]] ∧
      parseProgram "(b) - 1;".toList = .ok [.node "-" [.name "b", .number 1]] ∧
      parseProgram "if (a) \x7b\x7d(b) - 1;".toList =
        .ok [.node "if" [.name "a", .node "block" []], .node "-" [.name "b", .number 1]] := by
  have first : parseProgram "if (a) \x7b\x7d".toList =
      .ok [.node "if" [.name "a", .node "block" []]] :=
    parse_program_ok.mpr ⟨[], by decide +kernel, rfl⟩
  have second : parseProgram "(b) - 1;".toList = .ok [.node "-" [.name "b", .number 1]] :=
    parse_program_ok.mpr ⟨[], by decide +kernel, rfl⟩
  exact ⟨first, second, parse_program_append first second⟩

end Descent.Script
