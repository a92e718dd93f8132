import Descent.Proofs.Parser.Matching
import Descent.Proofs.Parser.Slicing

/-!
Parsers that agree on all inputs up to a length, and parsers whose matches are always shorter than
their input: what comes after one of those starts on a shorter input.
-/

namespace Descent.Parser

variable {α β : Type}

/-- The two parsers have the same outcome on every input that is no longer than `bound`. -/
def AgreeUpTo (bound : Nat) (first second : Parser α) : Prop :=
  ∀ input, input.length ≤ bound → first input = second input

/-- Every match is shorter than its input. -/
def Consumes (parser : Parser α) : Prop :=
  ∀ input value rest, parser input = .matched value rest → rest.length < input.length

theorem agree_refl (bound : Nat) (parser : Parser α) : AgreeUpTo bound parser parser :=
  fun _ _ => rfl

theorem choice_singleton (parser : Parser α) : choice [parser] = parser := rfl

theorem fold_matched (parsers : List (Parser α)) (input rest : List Char) (value : α) :
    parsers.foldl (fun (outcome : Outcome α) parser => outcome.orElse fun _ => parser input)
      (Outcome.matched value rest) = .matched value rest := by
  induction parsers with
  | nil => rfl
  | cons parser parsers ih => exact ih

theorem choice_cons (first second : Parser α) (others : List (Parser α)) :
    choice (first :: second :: others) = (first <|> choice (second :: others)) := by
  funext input
  rw [or_else_apply, choice, List.foldl_cons, Outcome.or_else_failed]
  cases run : first input with
  | matched value rest => exact fold_matched (second :: others) input rest value
  | failed rest => rfl

theorem satisfy_consumes (test : Char → Bool) : (satisfy test).Consumes := by
  intro input value rest run
  obtain ⟨rfl, -⟩ := satisfy_matched.mp run
  exact Nat.lt_succ_self _

theorem literal_consumes (char : Char) : (literal (String.singleton char)).Consumes := by
  intro input value rest run
  obtain ⟨rfl, -⟩ := literal_matched.mp run
  exact Nat.lt_succ_self _

theorem bind_consumes {parser : Parser α} {next : α → Parser β} (consumes : parser.Consumes)
    (slices : ∀ value, (next value).Slices) : (parser >>= next).Consumes := by
  intro input value rest run
  obtain ⟨found, middle, first, others⟩ := bind_matched.mp run
  have shorter := consumes input found middle first
  exact Nat.lt_of_le_of_lt ((slices found).matched_suffix others).length_le shorter

theorem map_consumes (f : α → β) {parser : Parser α} (consumes : parser.Consumes) :
    (f <$> parser).Consumes := by
  intro input value rest run
  obtain ⟨found, first, -⟩ := map_matched.mp run
  exact consumes input found rest first

theorem or_else_consumes {first second : Parser α} (consumes : first.Consumes)
    (other : second.Consumes) : (first <|> second).Consumes := by
  intro input value rest run
  rcases or_else_matched.mp run with tried | ⟨-, retried⟩
  · exact consumes input value rest tried
  · exact other input value rest retried

theorem token_consumes {parser : Parser α} (consumes : parser.Consumes) :
    (token parser).Consumes := by
  intro input value rest run
  obtain ⟨middle, first, rfl⟩ := token_matched.mp run
  have shorter := consumes _ _ _ first
  have leading := (Text.trim_suffix input).length_le
  have trailing := (Text.trim_suffix middle).length_le
  omega

theorem verify_consumes {parser : Parser α} (consumes : parser.Consumes) (test : α → Bool) :
    (verify parser test).Consumes := fun input value rest run =>
  consumes input value rest (verify_matched.mp run).1

/-- An item and a separator, in front of a row that is matched already. -/
theorem separated_next {parser : Parser α} {separator : Parser β} (slices : parser.Slices)
    (consumes : separator.Consumes) {input left after last : List Char} {first : α} {sign : β}
    {values : List α} (found : parser input = .matched first left)
    (apart : separator left = .matched sign after)
    (others : separated parser separator after = .matched values last) :
    separated parser separator input = .matched (first :: values) last := by
  obtain ⟨next, further, middle, started, continued, rfl⟩ := separated_matched.mp others
  have again : precededBy separator parser left = .matched next middle :=
    preceded_by_matched.mpr ⟨sign, after, apart, started⟩
  have shorter : middle.length < left.length :=
    Nat.lt_of_le_of_lt (slices.matched_suffix started).length_le (consumes _ _ _ apart)
  exact separated_matched.mpr
    ⟨first, next :: further, left, found, many_next again shorter continued, rfl⟩

end Descent.Parser
