import Descent.Parser.Listing
import Descent.Proofs.Parser.Scanning

/-!
How a match of a combined parser comes about: from which matches of its parts, and with which
rests between them.
-/

namespace Descent.Parser

open Text

variable {α β γ : Type} {input rest : List Char}

theorem map_matched {f : α → β} {parser : Parser α} {value : β} :
    (f <$> parser) input = .matched value rest ↔
      ∃ found, parser input = .matched found rest ∧ f found = value := by
  rw [map_apply]
  cases parser input with
  | matched found middle => simp only [Outcome.map_matched, Outcome.matched.injEq]; grind
  | failed middle => simp

theorem bind_matched {parser : Parser α} {next : α → Parser β} {value : β} :
    (parser >>= next) input = .matched value rest ↔
      ∃ found middle, parser input = .matched found middle ∧
        next found middle = .matched value rest := by
  rw [bind_apply]
  cases parser input with
  | matched found middle => simp only [Outcome.and_then_matched, Outcome.matched.injEq]; grind
  | failed middle => simp

theorem pure_matched {found value : α} :
    (pure found : Parser α) input = .matched value rest ↔ found = value ∧ input = rest := by
  rw [pure_apply, Outcome.matched.injEq]

theorem pair_matched {first : Parser α} {second : Parser β} {value : α × β} :
    Parser.sequence (first, second) input = .matched value rest ↔
      ∃ middle, first input = .matched value.1 middle ∧ second middle = .matched value.2 rest := by
  constructor
  · intro run
    obtain ⟨left, middle, opened, others⟩ := bind_matched.mp run
    obtain ⟨right, last, closed, ended⟩ := bind_matched.mp others
    obtain ⟨rfl, rfl⟩ := pure_matched.mp ended
    exact ⟨middle, opened, closed⟩
  · intro given
    obtain ⟨middle, opened, closed⟩ := given
    exact bind_matched.mpr ⟨_, middle, opened,
      bind_matched.mpr ⟨_, rest, closed, pure_matched.mpr ⟨rfl, rfl⟩⟩⟩

theorem preceded_by_matched {opening : Parser β} {parser : Parser α} {value : α} :
    precededBy opening parser input = .matched value rest ↔
      ∃ found middle, opening input = .matched found middle ∧
        parser middle = .matched value rest := bind_matched

theorem terminated_by_matched {parser : Parser α} {closing : Parser β} {value : α} :
    terminatedBy parser closing input = .matched value rest ↔
      ∃ middle found, parser input = .matched value middle ∧
        closing middle = .matched found rest := by
  constructor
  · intro run
    obtain ⟨found, middle, opened, others⟩ := bind_matched.mp run
    obtain ⟨last, final, closed, ended⟩ := bind_matched.mp others
    obtain ⟨rfl, rfl⟩ := pure_matched.mp ended
    exact ⟨middle, last, opened, closed⟩
  · intro given
    obtain ⟨middle, found, opened, closed⟩ := given
    exact bind_matched.mpr ⟨_, middle, opened,
      bind_matched.mpr ⟨_, rest, closed, pure_matched.mpr ⟨rfl, rfl⟩⟩⟩

theorem between_matched {opening : Parser β} {closing : Parser γ} {parser : Parser α}
    {value : α} :
    between opening closing parser input = .matched value rest ↔
      ∃ first middle inner last, opening input = .matched first middle ∧
        parser middle = .matched value inner ∧ closing inner = .matched last rest := by
  constructor
  · intro run
    obtain ⟨first, middle, opened, others⟩ := preceded_by_matched.mp run
    obtain ⟨inner, last, parsed, closed⟩ := terminated_by_matched.mp others
    exact ⟨first, middle, inner, last, opened, parsed, closed⟩
  · intro given
    obtain ⟨first, middle, inner, last, opened, parsed, closed⟩ := given
    exact preceded_by_matched.mpr ⟨first, middle, opened,
      terminated_by_matched.mpr ⟨inner, last, parsed, closed⟩⟩

theorem or_else_matched {first second : Parser α} {value : α} :
    (first <|> second) input = .matched value rest ↔
      first input = .matched value rest ∨
        (∃ place, first input = .failed place) ∧ second input = .matched value rest := by
  rw [or_else_apply]
  cases first input with
  | matched found middle => simp
  | failed middle => simp

/-- A choice fails where its last alternative does. -/
theorem failed_of_or_else {first second : Parser α} {stop : List Char}
    (failed : (first <|> second) input = .failed stop) : second input = .failed stop := by
  rw [or_else_apply] at failed
  cases run : first input with
  | matched value rest => rw [run] at failed; contradiction
  | failed place => rwa [run, Outcome.or_else_failed] at failed

theorem optional_matched {parser : Parser α} {value : Option α} :
    optional parser input = .matched value rest ↔
      (∃ found, parser input = .matched found rest ∧ value = some found) ∨
        (∃ place, parser input = .failed place) ∧ value = none ∧ rest = input := by
  rw [optional]
  cases parser input with
  | matched found middle => simp only [Outcome.matched.injEq, reduceCtorEq]; grind
  | failed middle => simp [eq_comm]

theorem verify_matched {parser : Parser α} {test : α → Bool} {value : α} :
    verify parser test input = .matched value rest ↔
      parser input = .matched value rest ∧ test value = true := by
  rw [verify]
  cases parser input with
  | failed middle => simp
  | matched found middle =>
      cases passes : test found with
      | true => simp only [passes, if_true]; grind
      | false => simp only [passes, Bool.false_eq_true, if_false]; grind

theorem token_matched {parser : Parser α} {value : α} :
    token parser input = .matched value rest ↔
      ∃ middle, parser (trim input) = .matched value middle ∧ trim middle = rest := by
  rw [token_apply]
  cases parser (trim input) with
  | matched found middle =>
      simp only [Outcome.and_then_matched, Outcome.matched.injEq]
      grind
  | failed middle => simp

theorem satisfy_matched {test : Char → Bool} {value : Char} :
    satisfy test input = .matched value rest ↔ input = value :: rest ∧ test value = true := by
  cases input with
  | nil => simp [satisfy]
  | cons char others =>
      cases passes : test char with
      | true => simp [satisfy, passes]; grind
      | false => simp [satisfy, passes]; grind

theorem literal_matched {char : Char} {value : String} :
    literal (String.singleton char) input = .matched value rest ↔
      input = char :: rest ∧ value = String.singleton char := by
  cases input with
  | nil => simp [literal_nil]
  | cons first others =>
      rw [literal_cons]
      by_cases same : char = first
      · simp [same, and_comm, eq_comm]
      · simp [same, Ne.symm same]

theorem many_matched {parser : Parser α} {values : List α} :
    many parser input = .matched values rest ↔ advance parser input = (values, rest) := by
  rw [many, Outcome.matched.injEq, Prod.ext_iff]

/-- One more round of a repetition. -/
theorem many_next {parser : Parser α} {middle : List Char} {value : α} {values : List α}
    (first : parser input = .matched value middle) (advanced : middle.length < input.length)
    (others : many parser middle = .matched values rest) :
    many parser input = .matched (value :: values) rest := by
  apply many_matched.mpr
  rw [advance, first]
  simp only [advanced, if_true, many_matched.mp others]

theorem separated_matched {parser : Parser α} {separator : Parser β} {values : List α} :
    separated parser separator input = .matched values rest ↔
      ∃ first others middle, parser input = .matched first middle ∧
        many (precededBy separator parser) middle = .matched others rest ∧
        values = first :: others := by
  constructor
  · intro run
    obtain ⟨first, middle, started, more⟩ := bind_matched.mp run
    obtain ⟨others, last, continued, ended⟩ := bind_matched.mp more
    obtain ⟨rfl, rfl⟩ := pure_matched.mp ended
    exact ⟨first, others, middle, started, continued, rfl⟩
  · intro given
    obtain ⟨first, others, middle, started, continued, rfl⟩ := given
    exact bind_matched.mpr ⟨first, middle, started, bind_matched.mpr
      ⟨others, rest, continued, pure_matched.mpr ⟨rfl, rfl⟩⟩⟩

end Descent.Parser
