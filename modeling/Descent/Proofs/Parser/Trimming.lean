import Descent.Proofs.Parser.Matching

/-!
Parsers that skip the spaces behind what they match. A token does, and so does whatever ends with a
token. A part that can be missing at the end changes nothing: where it is missing, the rest is that
of the part before it.
-/

namespace Descent.Parser

open Text

variable {α β γ : Type}

/-- After every match, the rest does not start with a space. -/
def Trims (parser : Parser α) : Prop :=
  ∀ input value rest, parser input = .matched value rest → trim rest = rest

/-- The same, if there are no spaces in front of the input either. -/
def StaysTrimmed (parser : Parser α) : Prop :=
  ∀ input value rest, trim input = input → parser input = .matched value rest → trim rest = rest

theorem token_trims (parser : Parser α) : (token parser).Trims := by
  intro input value rest run
  obtain ⟨middle, _, rfl⟩ := token_matched.mp run
  exact trim_trim middle

theorem pure_stays_trimmed (value : α) : StaysTrimmed (pure value : Parser α) := by
  intro input found rest trimmed run
  rw [← (pure_matched.mp run).2]
  exact trimmed

theorem map_trims (f : α → β) {parser : Parser α} (trims : parser.Trims) :
    (f <$> parser).Trims := by
  intro input value rest run
  obtain ⟨found, parsed, _⟩ := map_matched.mp run
  exact trims _ _ _ parsed

theorem Trims.bind {parser : Parser α} {next : α → Parser β} (trims : parser.Trims)
    (others : ∀ value, (next value).StaysTrimmed) : (parser >>= next).Trims := by
  intro input value rest run
  obtain ⟨found, middle, parsed, ended⟩ := bind_matched.mp run
  exact others found _ _ _ (trims _ _ _ parsed) ended

/-- Where what comes last trims, it does not matter what stands in front. -/
theorem bind_trims {parser : Parser α} {next : α → Parser β}
    (others : ∀ value, (next value).Trims) : (parser >>= next).Trims := by
  intro input value rest run
  obtain ⟨found, middle, _, ended⟩ := bind_matched.mp run
  exact others found _ _ _ ended

theorem StaysTrimmed.bind {parser : Parser α} {next : α → Parser β} (stays : parser.StaysTrimmed)
    (others : ∀ value, (next value).StaysTrimmed) : (parser >>= next).StaysTrimmed := by
  intro input value rest trimmed run
  obtain ⟨found, middle, parsed, ended⟩ := bind_matched.mp run
  exact others found _ _ _ (stays _ _ _ trimmed parsed) ended

theorem or_else_trims {first second : Parser α} (trims : first.Trims) (other : second.Trims) :
    (first <|> second).Trims := by
  intro input value rest run
  rcases or_else_matched.mp run with found | ⟨-, found⟩
  · exact trims _ _ _ found
  · exact other _ _ _ found

theorem verify_trims {parser : Parser α} (trims : parser.Trims) (test : α → Bool) :
    (verify parser test).Trims := by
  intro input value rest run
  exact trims _ _ _ (verify_matched.mp run).1

theorem optional_stays_trimmed {parser : Parser α} (trims : parser.Trims) :
    (optional parser).StaysTrimmed := by
  intro input value rest trimmed run
  rcases optional_matched.mp run with ⟨found, parsed, _⟩ | ⟨-, -, rfl⟩
  · exact trims _ _ _ parsed
  · exact trimmed

theorem pair_trims {first : Parser α} {second : Parser β} (trims : second.Trims) :
    (Parser.sequence (first, second)).Trims := by
  intro input value rest run
  obtain ⟨middle, _, closed⟩ := pair_matched.mp run
  exact trims _ _ _ closed

theorem preceded_by_trims {opening : Parser β} {parser : Parser α} (trims : parser.Trims) :
    (precededBy opening parser).Trims := bind_trims fun _ => trims

theorem Trims.terminated_by {parser : Parser α} {closing : Parser β} (trims : parser.Trims)
    (stays : closing.StaysTrimmed) : (terminatedBy parser closing).Trims :=
  trims.bind fun value => stays.bind fun _ => pure_stays_trimmed value

theorem terminated_by_trims {parser : Parser α} {closing : Parser β} (trims : closing.Trims) :
    (terminatedBy parser closing).Trims :=
  bind_trims fun value => trims.bind fun _ => pure_stays_trimmed value

theorem between_trims {opening : Parser β} {closing : Parser γ} {parser : Parser α}
    (trims : closing.Trims) : (between opening closing parser).Trims :=
  preceded_by_trims (terminated_by_trims trims)

end Descent.Parser
