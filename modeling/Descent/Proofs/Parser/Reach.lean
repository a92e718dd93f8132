import Descent.Proofs.Parser.Yield

/-!
Parsers that get at least as far as a place. Where something that follows a phrase can go on with
it, its parser still matches, only later than the phrase ends.
-/

namespace Descent.Parser

open Text

variable {α β : Type} {place middle rest : List Char}

/-- However many spaces there are at the first place, the parser matches up to the second place or
beyond it. -/
def Reaches (parser : Parser α) (place rest : List Char) : Prop :=
  ∀ input, trim input = trim place →
    ∃ value last, parser input = .matched value last ∧ trim last <:+ trim rest

theorem Yields.reaches {parser : Parser α} {value : α} (parsed : parser.Yields place value rest) :
    parser.Reaches place rest := by
  intro input same
  obtain ⟨last, run, reached⟩ := parsed input same
  exact ⟨value, last, run, reached ▸ List.suffix_refl _⟩

theorem Yields.bind_reaches {parser : Parser α} {next : α → Parser β} {found : α}
    (first : parser.Yields place found middle) (second : (next found).Reaches middle rest) :
    (parser >>= next).Reaches place rest := by
  intro input same
  obtain ⟨left, run, reached⟩ := first input same
  obtain ⟨value, last, ended, beyond⟩ := second left reached
  exact ⟨value, last, bind_matched.mpr ⟨found, left, run, ended⟩, beyond⟩

theorem pure_reaches (value : α) (place : List Char) :
    Reaches (pure value : Parser α) place place := (Yields.pure value place).reaches

/-- What comes next may start anywhere, so it must not be able to fail. -/
theorem Reaches.bind {parser : Parser α} {next : α → Parser β} (first : parser.Reaches place rest)
    (others : ∀ found left, (next found).Reaches left left) :
    (parser >>= next).Reaches place rest := by
  intro input same
  obtain ⟨found, left, run, reached⟩ := first input same
  obtain ⟨value, last, ended, beyond⟩ := others found left left rfl
  exact ⟨value, last, bind_matched.mpr ⟨found, left, run, ended⟩, beyond.trans reached⟩

theorem Yields.pair_reaches {parser : Parser α} {other : Parser β} {found : α}
    (first : parser.Yields place found middle) (second : other.Reaches middle rest) :
    (Parser.sequence (parser, other)).Reaches place rest :=
  first.bind_reaches (second.bind fun value left => pure_reaches (found, value) left)

theorem optional_reaches {parser : Parser α} (slices : parser.Slices) (place : List Char) :
    (optional parser).Reaches place place := by
  intro input same
  rw [← same]
  cases run : parser input with
  | failed stop =>
      exact ⟨none, input, optional_matched.mpr (.inr ⟨⟨stop, run⟩, rfl, rfl⟩),
        List.suffix_refl _⟩
  | matched value last =>
      exact ⟨some value, last, optional_matched.mpr (.inl ⟨value, run, rfl⟩),
        trim_suffix_trim (slices.matched_suffix run)⟩

theorem Reaches.some {parser : Parser α} (reached : parser.Reaches place rest) :
    (optional parser).Reaches place rest := by
  intro input same
  obtain ⟨value, last, run, beyond⟩ := reached input same
  exact ⟨_, last, optional_matched.mpr (.inl ⟨value, run, rfl⟩), beyond⟩

theorem many_reaches {parser : Parser α} (slices : parser.Slices) (place : List Char) :
    (many parser).Reaches place place := by
  intro input same
  rw [← same]
  exact ⟨_, _, rfl, trim_suffix_trim (advance_suffix slices input)⟩

theorem Reaches.many_first {parser : Parser α} (slices : parser.Slices)
    (shorter : (trim rest).length < (trim place).length) (first : parser.Reaches place rest) :
    (many parser).Reaches place rest := by
  intro input same
  obtain ⟨value, left, run, reached⟩ := first input same
  obtain ⟨values, last, more, beyond⟩ := many_reaches slices left left rfl
  have advanced := advanced_of_shorter slices run same reached shorter
  exact ⟨value :: values, last, many_next run advanced more, beyond.trans reached⟩

theorem Reaches.many_after {parser : Parser α} {value : α} (slices : parser.Slices)
    (shorter : (trim middle).length < (trim place).length)
    (first : parser.Yields place value middle) (others : (many parser).Reaches middle rest) :
    (many parser).Reaches place rest := by
  intro input same
  obtain ⟨left, run, reached⟩ := first input same
  obtain ⟨values, last, more, beyond⟩ := others left reached
  have further : trim left <:+ trim middle := reached ▸ List.suffix_refl _
  have advanced := advanced_of_shorter slices run same further shorter
  exact ⟨value :: values, last, many_next run advanced more, beyond⟩

theorem Reaches.spaced {parser : Parser α} (reached : parser.Reaches place rest) :
    (spaced parser).Reaches place rest := by
  intro input same
  rw [spaced_apply]
  exact reached (trim input) ((trim_trim input).trans same)

theorem Reaches.or_else_first {first second : Parser α} (reached : first.Reaches place rest) :
    (first <|> second).Reaches place rest := by
  intro input same
  obtain ⟨value, last, run, beyond⟩ := reached input same
  exact ⟨value, last, Parser.or_else_matched.mpr (.inl run), beyond⟩

/-- The first choice may match as well, as long as it gets as far. -/
theorem Reaches.or_else {first second : Parser α}
    (beyond : ∀ input value last, trim input = trim place → first input = .matched value last →
      trim last <:+ trim rest)
    (reached : second.Reaches place rest) : (first <|> second).Reaches place rest := by
  intro input same
  cases run : first input with
  | matched value last =>
      exact ⟨value, last, Parser.or_else_matched.mpr (.inl run), beyond input value last same run⟩
  | failed stop =>
      obtain ⟨value, last, again, further⟩ := reached input same
      exact ⟨value, last, Parser.or_else_matched.mpr (.inr ⟨⟨stop, run⟩, again⟩), further⟩

theorem Reaches.or_else_second {first second : Parser α} (refused : first.Refuses place)
    (reached : second.Reaches place rest) : (first <|> second).Reaches place rest := by
  apply Reaches.or_else _ reached
  intro input value last same run
  obtain ⟨stop, failed⟩ := refused input same
  rw [run] at failed
  contradiction

end Descent.Parser
