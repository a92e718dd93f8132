import Descent.Proofs.Parser.Agreement

/-!
The laws of alternatives. An alternative keeps a match with all that it tells, but of a failure only that
there was one: the place that counts is that of the last parser that ran. Main statement: alternatives can
be nested in any way, and a choice among any number of parsers is such a nest. A parser that fails at once
is neutral in front of another one. Behind it, it is neutral up to the place of a failure, which it moves
back to the start of the input.
-/

namespace Descent.Parser

variable {α : Type}

theorem or_else_assoc (first second third : Parser α) :
    ((first <|> second) <|> third) = (first <|> (second <|> third)) := by
  funext input
  simp only [or_else_apply]
  cases first input with
  | matched value rest => simp only [Outcome.or_else_matched]
  | failed stop => simp only [Outcome.or_else_failed]

theorem fail_or_else (parser : Parser α) : (fail <|> parser) = parser := by
  funext input
  rw [or_else_apply, fail, Outcome.or_else_failed]

theorem or_else_fail_matched {parser : Parser α} {input rest : List Char} {value : α} :
    (parser <|> (fail : Parser α)) input = .matched value rest ↔ parser input = .matched value rest := by
  rw [or_else_matched]
  constructor
  · rintro (found | ⟨-, none⟩)
    · exact found
    · contradiction
  · exact .inl

/-- The place where the parser failed does not matter any more. -/
theorem or_else_fail_failed {parser : Parser α} {input stop : List Char} :
    (parser <|> (fail : Parser α)) input = .failed stop ↔
      (parser input).isMatched = false ∧ stop = input := by
  rw [or_else_apply]
  cases parser input with
  | matched value rest => simp [Outcome.isMatched]
  | failed place =>
      rw [Outcome.or_else_failed, fail, Outcome.failed.injEq]
      simp [Outcome.isMatched, eq_comm]

theorem or_else_fail_iff {parser : Parser α} {input : List Char} :
    (parser <|> (fail : Parser α)) input = parser input ↔
      (parser input).isMatched = true ∨ parser input = .failed input := by
  rw [or_else_apply]
  cases parser input with
  | matched value rest => simp [Outcome.isMatched]
  | failed place =>
      rw [Outcome.or_else_failed, fail, Outcome.failed.injEq, Outcome.failed.injEq]
      simp [Outcome.isMatched, eq_comm]

/-- Every parser is an alternative to all that follow it. -/
def nested (first : Parser α) : List (Parser α) → Parser α
  | [] => first
  | second :: others => first <|> nested second others

theorem choice_eq_nested (first : Parser α) (others : List (Parser α)) :
    choice (first :: others) = nested first others := by
  induction others generalizing first with
  | nil => exact choice_singleton first
  | cons second others ih => rw [choice_cons, ih, nested]

theorem or_else_nested (first second : Parser α) (others : List (Parser α)) :
    nested (first <|> second) others = (first <|> nested second others) := by
  cases others with
  | nil => rfl
  | cons third others => rw [nested, nested, or_else_assoc]

/-- A nest to the left has the same outcomes. -/
theorem foldl_eq_nested (first : Parser α) (others : List (Parser α)) :
    others.foldl (fun earlier later => earlier <|> later) first = nested first others := by
  induction others generalizing first with
  | nil => rfl
  | cons second others ih => rw [List.foldl_cons, ih, or_else_nested, nested]

theorem alternatives_nest_freely (α : Type) :
    (∀ first second third : Parser α,
      ((first <|> second) <|> third) = (first <|> (second <|> third))) ∧
    (∀ parser : Parser α, (fail <|> parser) = parser) ∧
    (∀ (parser : Parser α) input,
      (∀ value rest, (parser <|> (fail : Parser α)) input = .matched value rest ↔
        parser input = .matched value rest) ∧
      (∀ stop, (parser <|> (fail : Parser α)) input = .failed stop ↔
        (parser input).isMatched = false ∧ stop = input) ∧
      ((parser <|> (fail : Parser α)) input = parser input ↔
        (parser input).isMatched = true ∨ parser input = .failed input)) ∧
    ∀ (first : Parser α) (others : List (Parser α)),
      choice (first :: others) = nested first others ∧
        choice (first :: others) = others.foldl (fun earlier later => earlier <|> later) first := by
  refine ⟨or_else_assoc, fail_or_else, ?_, ?_⟩
  · intro parser input
    refine ⟨?_, ?_, or_else_fail_iff⟩
    · intro value rest
      exact or_else_fail_matched
    · intro stop
      exact or_else_fail_failed
  · intro first others
    rw [foldl_eq_nested]
    exact ⟨choice_eq_nested first others, choice_eq_nested first others⟩

/-- The failure of a parser that has consumed something is told at its place by the parser alone, and at
the start of the input as soon as an alternative fails there. -/
theorem failing_alternative_moves_failure :
    Parser.sequence (character 'a', character 'b') ['a', 'c'] = .failed ['c'] ∧
      (Parser.sequence (character 'a', character 'b') <|> (fail : Parser (Char × Char)))
        ['a', 'c'] = .failed ['a', 'c'] ∧
      ¬ ∀ (parser : Parser (Char × Char)) input,
        (parser <|> (fail : Parser (Char × Char))) input = parser input := by
  have alone : Parser.sequence (character 'a', character 'b') ['a', 'c'] = .failed ['c'] := rfl
  have behind : (Parser.sequence (character 'a', character 'b') <|> (fail : Parser (Char × Char)))
      ['a', 'c'] = .failed ['a', 'c'] := rfl
  refine ⟨alone, behind, ?_⟩
  intro neutral
  have same := neutral (Parser.sequence (character 'a', character 'b')) ['a', 'c']
  rw [alone, behind] at same
  simp at same

end Descent.Parser
