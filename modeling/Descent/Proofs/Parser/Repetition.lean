import Descent.Proofs.Parser.Slicing
import Descent.Proofs.Parser.Matching

/-!
Repetition as a run of matches. From every input there is one run of consuming matches in a row that
ends where the parser fails or matches nothing, and no assumption on the parser is needed but that it
slices. Main statement: all forms of repetition collect the values of such a run and stop at its end,
with a first match of their own where they need one.
-/

namespace Descent.Parser

variable {α β : Type} {parser : Parser α} {separator : Parser β}
  {input rest last place : List Char} {links others : List (α × List Char)}

/-- The parser fails at this input, or matches without consuming anything. -/
def Halts (parser : Parser α) (input : List Char) : Prop :=
  (∃ stop, parser input = .failed stop) ∨ ∃ value, parser input = .matched value input

/-- Matches in a row, of which each consumes something, up to an input where the parser halts. Every
match is listed with its value and the input that it leaves. -/
inductive Run (parser : Parser α) : List Char → List (α × List Char) → List Char → Prop where
  | halt {input : List Char} (halts : parser.Halts input) : Run parser input [] input
  | next {input rest last : List Char} {value : α} {links : List (α × List Char)}
      (found : parser input = .matched value rest) (shorter : rest.length < input.length)
      (others : Run parser rest links last) : Run parser input ((value, rest) :: links) last

theorem halts_of_stuck (slices : parser.Slices) {value : α}
    (found : parser input = .matched value rest) (stuck : ¬ rest.length < input.length) :
    parser.Halts input := by
  have suffix := slices.matched_suffix found
  have same : rest = input := suffix.eq_of_length_le (Nat.le_of_not_lt stuck)
  rw [same] at found
  exact .inr ⟨value, found⟩

theorem not_halts {value : α} (found : parser input = .matched value rest)
    (shorter : rest.length < input.length) : ¬ parser.Halts input := by
  rintro (⟨stop, failed⟩ | ⟨other, empty⟩)
  · cases found.symm.trans failed
  · cases found.symm.trans empty
    exact absurd shorter (Nat.lt_irrefl _)

theorem run_exists (slices : parser.Slices) (input : List Char) :
    ∃ links last, parser.Run input links last := by
  induction length : input.length using Nat.strongRecOn generalizing input with
  | ind bound ih =>
      cases found : parser input with
      | failed stop => exact ⟨[], input, .halt (.inl ⟨stop, found⟩)⟩
      | matched value rest =>
          by_cases shorter : rest.length < input.length
          · obtain ⟨links, last, run⟩ := ih rest.length (by omega) rest rfl
            exact ⟨(value, rest) :: links, last, .next found shorter run⟩
          · exact ⟨[], input, .halt (halts_of_stuck slices found shorter)⟩

theorem Run.unique (run : parser.Run input links last) (other : parser.Run input others place) :
    others = links ∧ place = last := by
  induction run generalizing others with
  | halt halts =>
      cases other with
      | halt again => exact ⟨rfl, rfl⟩
      | next found shorter more => exact absurd halts (not_halts found shorter)
  | next found shorter run ih =>
      cases other with
      | halt halts => exact absurd halts (not_halts found shorter)
      | next again shorter more =>
          cases found.symm.trans again
          obtain ⟨same, ended⟩ := ih more
          rw [same]
          exact ⟨rfl, ended⟩

theorem Run.halts (run : parser.Run input links last) : parser.Halts last := by
  induction run with
  | halt halts => exact halts
  | next found shorter run ih => exact ih

theorem advance_of_halts (halts : parser.Halts input) : advance parser input = ([], input) := by
  rcases halts with ⟨stop, failed⟩ | ⟨value, empty⟩
  · rw [advance, failed]
  · rw [advance, empty]
    simp only [Nat.lt_irrefl, if_false]

theorem many_of_halts (halts : parser.Halts input) :
    many parser input = .matched [] input := many_matched.mpr (advance_of_halts halts)

/-- A repetition collects the values of the run. -/
theorem Run.many (run : parser.Run input links last) :
    many parser input = .matched (links.map Prod.fst) last := by
  induction run with
  | halt halts => exact many_of_halts halts
  | next found shorter run ih => exact many_next found shorter ih

theorem Run.skip_many (run : parser.Run input links last) :
    skipMany parser input = .matched () last := by
  rw [skipMany, many_matched.mp run.many]

theorem many1_of_failed (failed : parser input = .failed place) :
    many1 parser input = .failed place := by
  rw [many1, bind_apply, failed, Outcome.and_then_failed]

theorem many1_of_matched {first : α} {values : List α} (found : parser input = .matched first rest)
    (more : many parser rest = .matched values last) :
    many1 parser input = .matched (first :: values) last := by
  rw [many1, bind_apply, found, Outcome.and_then_matched, bind_apply, more]
  rfl

theorem separated_of_failed (failed : parser input = .failed place) :
    separated parser separator input = .failed place := by
  rw [separated, bind_apply, failed, Outcome.and_then_failed]

theorem separated_of_matched {first : α} {values : List α}
    (found : parser input = .matched first rest)
    (more : many (precededBy separator parser) rest = .matched values last) :
    separated parser separator input = .matched (first :: values) last :=
  separated_matched.mpr ⟨first, values, rest, found, more, rfl⟩

/-- A run of items with separators in front of them ends right behind an item. -/
theorem Run.ends_behind_item (slices : parser.Slices) (separates : separator.Slices)
    (run : (precededBy separator parser).Run rest links last) {first : α} {start : List Char}
    (within : start <:+ input) (found : parser start = .matched first rest) :
    ∃ start, start <:+ input ∧
      parser start = .matched ((links.map Prod.fst).getLastD first) last := by
  induction run generalizing first start with
  | halt halts => exact ⟨start, within, found⟩
  | @next middle rest last value links again shorter run ih =>
      obtain ⟨sign, after, separated, item⟩ := preceded_by_matched.mp again
      have left := (slices.matched_suffix found).trans within
      have behind := (separates.matched_suffix separated).trans left
      simpa only [List.map_cons, List.getLastD_cons] using ih behind item

/-- Where a run of items with separators ends, a separator has no consuming item behind it. -/
theorem item_missing (slices : parser.Slices) (separates : separator.Slices)
    (halts : (precededBy separator parser).Halts last) {sign : β}
    (found : separator last = .matched sign rest) :
    (∃ stop, parser rest = .failed stop) ∨
      rest = last ∧ ∃ value, parser last = .matched value last := by
  cases item : parser rest with
  | failed stop => exact .inl ⟨stop, rfl⟩
  | matched value left =>
      have both : precededBy separator parser last = .matched value left :=
        preceded_by_matched.mpr ⟨sign, rest, found, item⟩
      rcases halts with ⟨stop, failed⟩ | ⟨other, empty⟩
      · cases both.symm.trans failed
      · cases both.symm.trans empty
        have before := separates.matched_suffix found
        have behind := slices.matched_suffix item
        have same : rest = last := before.eq_of_length_le behind.length_le
        rw [same] at item
        exact .inr ⟨same, value, item⟩

theorem repetitions_follow_one_run (parser : Parser α) (separator : Parser β)
    (slices : parser.Slices) (separates : separator.Slices) (input : List Char) :
    (∃ links last, parser.Run input links last ∧
      (∀ others place, parser.Run input others place → others = links ∧ place = last) ∧
      many parser input = .matched (links.map Prod.fst) last ∧
      skipMany parser input = .matched () last ∧ many parser last = .matched [] last) ∧
    (∀ stop, parser input = .failed stop → many1 parser input = .failed stop ∧
      separated parser separator input = .failed stop) ∧
    ∀ first rest, parser input = .matched first rest →
      (∃ values last, many parser rest = .matched values last ∧
        many1 parser input = .matched (first :: values) last) ∧
      ∃ values last, many (precededBy separator parser) rest = .matched values last ∧
        separated parser separator input = .matched (first :: values) last ∧
        (∃ start, start <:+ input ∧ parser start = .matched (values.getLastD first) last) ∧
        ∀ sign after, separator last = .matched sign after →
          (∃ stop, parser after = .failed stop) ∨
            after = last ∧ ∃ value, parser last = .matched value last := by
  refine ⟨?_, ?_, ?_⟩
  · obtain ⟨links, last, run⟩ := run_exists slices input
    exact ⟨links, last, run, fun _ _ other => run.unique other, run.many, run.skip_many,
      many_of_halts run.halts⟩
  · intro stop failed
    exact ⟨many1_of_failed failed, separated_of_failed failed⟩
  · intro first rest found
    constructor
    · obtain ⟨links, last, run⟩ := run_exists slices rest
      exact ⟨_, last, run.many, many1_of_matched found run.many⟩
    · have both := preceded_by_slices separates slices
      obtain ⟨links, last, run⟩ := run_exists both rest
      refine ⟨_, last, run.many, separated_of_matched found run.many, ?_, ?_⟩
      · exact run.ends_behind_item slices separates (List.suffix_refl input) found
      · intro sign after separated
        exact item_missing slices separates run.halts separated

/-- A comma without a digit behind it is given back. Where digits are optional, a repetition drops
the empty match behind the last digit, but it keeps an empty match in front. -/
theorem trailing_comma_is_given_back :
    digit.Slices ∧ (character ',').Slices ∧ (optional digit).Slices ∧
      digit ['1', ',', '2', ',', 'x'] = .matched '1' [',', '2', ',', 'x'] ∧
      separated digit (character ',') ['1', ',', '2', ',', 'x'] =
        .matched ['1', '2'] [',', 'x'] ∧
      (∃ start, start <:+ ['1', ',', '2', ',', 'x'] ∧ digit start = .matched '2' [',', 'x']) ∧
      many (optional digit) ['1', 'x'] = .matched [some '1'] ['x'] ∧
      many (optional digit) ['x'] = .matched [] ['x'] ∧
      optional digit ['x'] = .matched none ['x'] ∧
      many1 (optional digit) ['x'] = .matched [none] ['x'] := by
  have digits : digit.Slices := satisfy_slices _
  have commas : (character ',').Slices := satisfy_slices _
  have optionals : (optional digit).Slices := optional_slices digits
  have first : digit ['1', ',', '2', ',', 'x'] = .matched '1' [',', '2', ',', 'x'] := rfl
  have listed : many (precededBy (character ',') digit) [',', '2', ',', 'x'] =
      .matched ['2'] [',', 'x'] := by decide +kernel
  have collected : many (optional digit) ['1', 'x'] = .matched [some '1'] ['x'] := by
    decide +kernel
  have empty : optional digit ['x'] = .matched none ['x'] := rfl
  obtain ⟨-, -, continued⟩ :=
    repetitions_follow_one_run digit (character ',') digits commas ['1', ',', '2', ',', 'x']
  obtain ⟨-, values, last, more, whole, behind, -⟩ := continued '1' _ first
  cases listed.symm.trans more
  obtain ⟨⟨links, place, -, -, run, -, again⟩, -, -⟩ :=
    repetitions_follow_one_run (optional digit) (character ',') optionals commas ['1', 'x']
  obtain ⟨-, rfl⟩ := Outcome.matched.inj (collected.symm.trans run)
  obtain ⟨-, -, continued⟩ :=
    repetitions_follow_one_run (optional digit) (character ',') optionals commas ['x']
  obtain ⟨⟨values, last, none, kept⟩, -⟩ := continued none _ empty
  cases again.symm.trans none
  exact ⟨digits, commas, optionals, first, whole, behind, collected, again, empty, kept⟩

end Descent.Parser
