import Descent.Proofs.Parser.Completing
import Descent.Proofs.Script.Completeness
import Descent.Script.Program

/-!
Complete scripts and expressions are exactly the phrases of the grammar. Main statement: a source
parses to some trees if and only if its tokens derive them, for whole scripts and for single
expressions, so that the order in which alternatives are tried hides no derivation.
-/

namespace Descent.Script

open Descent.Parser Text

theorem parse_program_eq (source : List Char) :
    parseProgram source =
      if trim (advance (parser .statement) source).2 = [] then
        .ok (advance (parser .statement) source).1
      else
        .error
          ⟨byteLength source - byteLength (trim (advance (parser .statement) source).2)⟩ := by
  have run : many (parser .statement) source =
      .matched (advance (parser .statement) source).1 (advance (parser .statement) source).2 := rfl
  have finished := finished_of_matched run
  by_cases blank : trim (advance (parser .statement) source).2 = []
  · rw [if_pos blank] at finished ⊢
    have completed : parseProgram source = _ := complete_of_matched finished
    rwa [trim_nil, if_pos rfl] at completed
  · rw [if_neg blank] at finished ⊢
    have completed : parseProgram source = _ := complete_of_failed finished
    exact completed

theorem parse_program_ok {source : List Char} {trees : List Tree} :
    parseProgram source = .ok trees ↔
      ∃ rest, many (parser .statement) source = .matched trees rest ∧ trim rest = [] := by
  rw [parse_program_eq]
  constructor
  · intro parsed
    split at parsed
    · next blank =>
        cases parsed
        exact ⟨_, rfl, blank⟩
    · contradiction
  · intro given
    obtain ⟨rest, run, blank⟩ := given
    rw [many_matched.mp run]
    exact if_pos blank

theorem derives_of_parse_program {source : List Char} {trees : List Tree}
    (parsed : parseProgram source = .ok trees) :
    ∃ tokens, lexicon.Reads source tokens [] ∧ Derives .statements tokens trees := by
  obtain ⟨rest, run, blank⟩ := parse_program_ok.mp parsed
  obtain ⟨tokens, reads, phrases⟩ :=
    statements_recognizes (parser_recognizes .statement) source trees rest run
  exact ⟨tokens, reads.congr_right blank, phrases⟩

theorem nothing_closes (phrase : Phrase) : phrase.Closes [] := by
  intro token middle first
  rw [Lexicon.next_nil rfl] at first
  contradiction

theorem parse_program_of_derives {source : List Char} {tokens : List Token} {trees : List Tree}
    (reads : lexicon.Reads source tokens []) (phrases : Derives .statements tokens trees) :
    parseProgram source = .ok trees := by
  have parsed := parses_of_derives phrases source [] reads (nothing_closes _)
  obtain ⟨rest, run, blank⟩ := parsed source rfl
  exact parse_program_ok.mpr ⟨rest, run, blank⟩

theorem derives_of_parse_expression {source : List Char} {tree : Tree}
    (parsed : parseExpression source = .ok tree) :
    ∃ tokens, lexicon.Reads source tokens [] ∧ Rule.expression.Language tokens tree := by
  obtain ⟨rest, run, blank⟩ := complete_ok.mp parsed
  obtain ⟨tokens, reads, phrase⟩ := parser_recognizes .expression source tree rest run
  exact ⟨tokens, reads.congr_right blank, phrase⟩

theorem parse_expression_of_derives {source : List Char} {tokens : List Token} {tree : Tree}
    (reads : lexicon.Reads source tokens []) (phrase : Rule.expression.Language tokens tree) :
    parseExpression source = .ok tree := by
  obtain ⟨_, ⟨⟩, parsed⟩ := parses_of_derives phrase source [] reads (nothing_closes _)
  obtain ⟨rest, run, blank⟩ := parsed source rfl
  exact complete_ok.mpr ⟨rest, run, blank⟩

theorem parses_exactly_grammar (source : List Char) :
    (∀ trees, parseProgram source = .ok trees ↔ Expresses .statements source trees) ∧
      ∀ tree, parseExpression source = .ok tree ↔
        Expresses (.rule .expression) source [tree] := by
  constructor
  · intro trees
    constructor
    · intro parsed
      obtain ⟨tokens, reads, phrases⟩ := derives_of_parse_program parsed
      exact ⟨tokens, Lexicon.tokens_iff.mpr reads, phrases⟩
    · intro given
      obtain ⟨tokens, found, phrases⟩ := given
      exact parse_program_of_derives (Lexicon.tokens_iff.mp found) phrases
  · intro tree
    constructor
    · intro parsed
      obtain ⟨tokens, reads, phrase⟩ := derives_of_parse_expression parsed
      exact ⟨tokens, Lexicon.tokens_iff.mpr reads, phrase⟩
    · intro given
      obtain ⟨tokens, found, phrase⟩ := given
      exact parse_expression_of_derives (Lexicon.tokens_iff.mp found) phrase

end Descent.Script
