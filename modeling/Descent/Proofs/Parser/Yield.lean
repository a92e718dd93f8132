import Descent.Proofs.Parser.Slicing
import Descent.Proofs.Parser.Matching
import Descent.Proofs.Reading

/-!
Parsers that read tokens, judged without regard to the spaces at a place. A parser yields a value
between two places, or refuses a place, and does so however many spaces stand there. Both judgments
are carried through every combinator, and the parsers for single tokens yield what the lexicon
reads.
-/

namespace Descent.Parser

open Text

variable {α β γ : Type} {place middle rest : List Char}

def Yields (parser : Parser α) (place : List Char) (value : α) (rest : List Char) : Prop :=
  ∀ input, trim input = trim place →
    ∃ last, parser input = .matched value last ∧ trim last = trim rest

def Refuses (parser : Parser α) (place : List Char) : Prop :=
  ∀ input, trim input = trim place → ∃ stop, parser input = .failed stop

theorem refuses_of_unmatched {parser : Parser α}
    (unmatched : ∀ input value last, trim input = trim place →
      parser input ≠ .matched value last) : parser.Refuses place := by
  intro input same
  cases run : parser input with
  | matched value last => exact absurd run (unmatched input value last same)
  | failed stop => exact ⟨stop, rfl⟩

theorem Yields.congr_right {parser : Parser α} {value : α} {other : List Char}
    (parsed : parser.Yields place value rest) (same : trim rest = trim other) :
    parser.Yields place value other := by
  intro input start
  obtain ⟨last, run, reached⟩ := parsed input start
  exact ⟨last, run, reached.trans same⟩

theorem Yields.pure (value : α) (place : List Char) :
    Yields (pure value : Parser α) place value place := fun input same => ⟨input, rfl, same⟩

theorem Yields.bind {parser : Parser α} {next : α → Parser β} {found : α} {value : β}
    (first : parser.Yields place found middle) (second : (next found).Yields middle value rest) :
    (parser >>= next).Yields place value rest := by
  intro input same
  obtain ⟨left, run, reached⟩ := first input same
  obtain ⟨last, ended, final⟩ := second left reached
  exact ⟨last, bind_matched.mpr ⟨found, left, run, ended⟩, final⟩

theorem Yields.map {parser : Parser α} {found : α} (f : α → β)
    (first : parser.Yields place found rest) : (f <$> parser).Yields place (f found) rest := by
  intro input same
  obtain ⟨last, run, reached⟩ := first input same
  exact ⟨last, map_matched.mpr ⟨found, run, rfl⟩, reached⟩

theorem Yields.preceded_by {opening : Parser β} {parser : Parser α} {sign : β} {value : α}
    (opened : opening.Yields place sign middle) (parsed : parser.Yields middle value rest) :
    (precededBy opening parser).Yields place value rest := opened.bind parsed

theorem Yields.terminated_by {parser : Parser α} {closing : Parser β} {value : α} {sign : β}
    (parsed : parser.Yields place value middle) (closed : closing.Yields middle sign rest) :
    (terminatedBy parser closing).Yields place value rest :=
  parsed.bind (closed.bind (Yields.pure value rest))

theorem Yields.between {opening : Parser β} {closing : Parser γ} {parser : Parser α}
    {inner : List Char} {sign : β} {value : α} {last : γ}
    (opened : opening.Yields place sign middle) (parsed : parser.Yields middle value inner)
    (closed : closing.Yields inner last rest) :
    (between opening closing parser).Yields place value rest :=
  opened.preceded_by (parsed.terminated_by closed)

theorem Yields.pair {first : Parser α} {second : Parser β} {left : α} {right : β}
    (opened : first.Yields place left middle) (closed : second.Yields middle right rest) :
    (Parser.sequence (first, second)).Yields place (left, right) rest :=
  opened.bind (closed.bind (Yields.pure (left, right) rest))

theorem Yields.or_else_first {first second : Parser α} {value : α}
    (parsed : first.Yields place value rest) : (first <|> second).Yields place value rest := by
  intro input same
  obtain ⟨last, run, reached⟩ := parsed input same
  exact ⟨last, or_else_matched.mpr (.inl run), reached⟩

theorem Yields.or_else_second {first second : Parser α} {value : α}
    (refused : first.Refuses place) (parsed : second.Yields place value rest) :
    (first <|> second).Yields place value rest := by
  intro input same
  obtain ⟨last, run, reached⟩ := parsed input same
  exact ⟨last, or_else_matched.mpr (.inr ⟨refused input same, run⟩), reached⟩

theorem Yields.some {parser : Parser α} {value : α} (parsed : parser.Yields place value rest) :
    (optional parser).Yields place (.some value) rest := by
  intro input same
  obtain ⟨last, run, reached⟩ := parsed input same
  exact ⟨last, optional_matched.mpr (.inl ⟨value, run, rfl⟩), reached⟩

theorem Refuses.none {parser : Parser α} (refused : parser.Refuses place) :
    (optional parser).Yields place none place := by
  intro input same
  exact ⟨input, optional_matched.mpr (.inr ⟨refused input same, rfl, rfl⟩), same⟩

theorem Refuses.many {parser : Parser α} (refused : parser.Refuses place) :
    (many parser).Yields place [] place := by
  intro input same
  obtain ⟨stop, run⟩ := refused input same
  exact ⟨input, by rw [Parser.many, advance, run], same⟩

/-- A match that gets ahead of the spaces at its place gets ahead. -/
theorem advanced_of_shorter {parser : Parser α} {input left : List Char} {value : α}
    (slices : parser.Slices) (run : parser input = .matched value left)
    (same : trim input = trim place) (reached : trim left <:+ trim middle)
    (shorter : (trim middle).length < (trim place).length) : left.length < input.length := by
  have suffix := slices.matched_suffix run
  rcases Nat.lt_or_ge left.length input.length with less | equal
  · exact less
  · rw [suffix.eq_of_length_le equal, same] at reached
    exact absurd shorter (Nat.not_lt_of_le reached.length_le)

theorem Yields.many {parser : Parser α} {value : α} {values : List α} (slices : parser.Slices)
    (shorter : (trim middle).length < (trim place).length)
    (first : parser.Yields place value middle)
    (others : (many parser).Yields middle values rest) :
    (many parser).Yields place (value :: values) rest := by
  intro input same
  obtain ⟨left, run, reached⟩ := first input same
  obtain ⟨last, again, final⟩ := others left reached
  have beyond : trim left <:+ trim middle := reached ▸ List.suffix_refl _
  have advanced := advanced_of_shorter slices run same beyond shorter
  exact ⟨last, many_next run advanced again, final⟩

theorem Refuses.bind {parser : Parser α} (refused : parser.Refuses place) (next : α → Parser β) :
    (parser >>= next).Refuses place := by
  intro input same
  obtain ⟨stop, run⟩ := refused input same
  exact ⟨stop, by rw [bind_apply, run]; rfl⟩

theorem Yields.bind_refuses {parser : Parser α} {next : α → Parser β} {found : α}
    (first : parser.Yields place found middle) (refused : (next found).Refuses middle) :
    (parser >>= next).Refuses place := by
  intro input same
  obtain ⟨left, run, reached⟩ := first input same
  obtain ⟨stop, failed⟩ := refused left reached
  exact ⟨stop, by rw [bind_apply, run]; exact failed⟩

theorem Refuses.map {parser : Parser α} (refused : parser.Refuses place) (f : α → β) :
    (f <$> parser).Refuses place := by
  intro input same
  obtain ⟨stop, run⟩ := refused input same
  exact ⟨stop, by rw [map_apply, run]; rfl⟩

theorem Refuses.or_else {first second : Parser α} (refused : first.Refuses place)
    (other : second.Refuses place) : (first <|> second).Refuses place := by
  intro input same
  obtain ⟨stop, run⟩ := refused input same
  obtain ⟨final, failed⟩ := other input same
  exact ⟨final, by rw [or_else_apply, run]; exact failed⟩

theorem Yields.spaced {parser : Parser α} {value : α} (parsed : parser.Yields place value rest) :
    (spaced parser).Yields place value rest := by
  intro input same
  rw [spaced_apply]
  exact parsed (trim input) ((trim_trim input).trans same)

theorem Refuses.spaced {parser : Parser α} (refused : parser.Refuses place) :
    (spaced parser).Refuses place := by
  intro input same
  rw [spaced_apply]
  exact refused (trim input) ((trim_trim input).trans same)

theorem spaced_or_else (first second : Parser α) :
    Parser.spaced (first <|> second) = (Parser.spaced first <|> Parser.spaced second) := by
  funext input
  rw [spaced_apply, or_else_apply, or_else_apply, spaced_apply, spaced_apply]

/-! Parsers for single tokens. -/

variable {lexicon : Lexicon}

/-- The parser matches the first token of its input, spaces around it included, if that token
passes the test, and nothing else. -/
def Takes (lexicon : Lexicon) (parser : Parser α) (test : Token → Option α) : Prop :=
  ∀ input value rest, parser input = .matched value rest ↔
    ∃ token middle, lexicon.next? input = some (token, middle) ∧ test token = some value ∧
      trim middle = rest

theorem Takes.reads {parser : Parser α} {test : Token → Option α}
    (takes : Takes lexicon parser test) {input : List Char} {value : α}
    (run : parser input = .matched value rest) :
    ∃ token, test token = some value ∧ lexicon.Reads input [token] rest := by
  obtain ⟨token, middle, first, passed, rfl⟩ := (takes input value rest).mp run
  exact ⟨token, passed, (Lexicon.Reads.single first).congr_right (trim_trim middle).symm⟩

theorem Takes.yields {parser : Parser α} {test : Token → Option α}
    (takes : Takes lexicon parser test) {token : Token} {value : α}
    (passed : test token = some value) (reads : lexicon.Reads place [token] rest) :
    parser.Yields place value rest := by
  intro input same
  obtain ⟨middle, first, reached⟩ := (reads.congr_left same.symm).uncons
  exact ⟨trim middle, (takes input value _).mpr ⟨token, middle, first, passed, rfl⟩,
    (trim_trim middle).trans reached.same_place⟩

theorem Takes.refuses {parser : Parser α} {test : Token → Option α}
    (takes : Takes lexicon parser test)
    (other : ∀ token middle, lexicon.next? place = some (token, middle) → test token = none) :
    parser.Refuses place := by
  apply refuses_of_unmatched
  intro input value last same run
  obtain ⟨token, middle, first, passed, -⟩ := (takes input value last).mp run
  rw [Lexicon.next_congr same] at first
  rw [other token middle first] at passed
  contradiction

theorem verify_takes {parser : Parser α} {test : Token → Option α}
    (takes : Takes lexicon parser test) (check : α → Bool) :
    Takes lexicon (verify parser check) fun token => (test token).filter check := by
  intro input value rest
  rw [verify_matched, takes input value rest]
  constructor
  · intro given
    obtain ⟨⟨token, middle, first, passed, reached⟩, checked⟩ := given
    exact ⟨token, middle, first, Option.filter_eq_some_iff.mpr ⟨passed, checked⟩, reached⟩
  · intro given
    obtain ⟨token, middle, first, passed, reached⟩ := given
    obtain ⟨passed, checked⟩ := Option.filter_eq_some_iff.mp passed
    exact ⟨⟨token, middle, first, passed, reached⟩, checked⟩

theorem name_takes (words : lexicon.hasWords = true) :
    Takes lexicon (token identifier) Token.word? := by
  intro input value rest
  constructor
  · intro run
    obtain ⟨middle, scanned, rfl⟩ := token_matched.mp run
    cases start : trim input with
    | nil => rw [start, identifier_nil] at scanned; contradiction
    | cons char others =>
        rw [start, identifier_cons] at scanned
        split at scanned
        · next lower =>
            cases scanned
            exact ⟨_, _, Lexicon.next_lower start lower words, rfl, rfl⟩
        · contradiction
  · rintro ⟨found | _ | _, middle, first, passed, rfl⟩ <;> cases passed
    obtain ⟨char, others, start, lower, rfl, rfl⟩ := Lexicon.next_word first
    exact token_matched.mpr ⟨_, by rw [start, identifier_cons, if_pos lower], rfl⟩

/-- A parser that matches single characters, each of them a sign of the lexicon, as a token. -/
theorem sign_takes {parser : Parser α} {test : Token → Option α}
    (plain : ∀ char ∈ lexicon.signs, char.isLower = false ∧ char.isDigit = false)
    (only : ∀ token value, test token = some value → ∃ char, token = .sign char)
    (scans : ∀ input value rest, parser input = .matched value rest ↔
      ∃ char ∈ lexicon.signs, input = char :: rest ∧ test (.sign char) = some value) :
    Takes lexicon (token parser) test := by
  intro input value rest
  constructor
  · intro run
    obtain ⟨middle, scanned, rfl⟩ := token_matched.mp run
    obtain ⟨char, known, start, passed⟩ := (scans _ _ _).mp scanned
    obtain ⟨lower, digit⟩ := plain char known
    have contained : lexicon.signs.contains char = true := List.contains_iff_mem.mpr known
    exact ⟨.sign char, middle, by rw [Lexicon.next_single start lower digit, if_pos contained],
      passed, rfl⟩
  · intro given
    obtain ⟨token, middle, first, passed, rfl⟩ := given
    obtain ⟨char, rfl⟩ := only token value passed
    obtain ⟨start, known⟩ := Lexicon.next_sign first
    exact token_matched.mpr ⟨middle, (scans _ _ _).mpr ⟨char, known, start, passed⟩, rfl⟩

theorem symbol_takes {char : Char} (known : char ∈ lexicon.signs)
    (plain : ∀ char ∈ lexicon.signs, char.isLower = false ∧ char.isDigit = false) :
    Takes lexicon (symbol (String.singleton char)) (Token.sign? char) := by
  apply sign_takes plain
  · intro token text passed
    exact ⟨char, (Token.sign_eq_some.mp passed).1⟩
  · intro input text rest
    rw [literal_matched]
    constructor
    · intro given
      obtain ⟨start, rfl⟩ := given
      exact ⟨char, known, start, if_pos rfl⟩
    · intro given
      obtain ⟨found, -, start, passed⟩ := given
      obtain ⟨same, rfl⟩ := Token.sign_eq_some.mp passed
      cases same
      exact ⟨start, rfl⟩

theorem magnitude_matched {bound : Nat}
    (admits : ∀ value, lexicon.admits value = decide (value ≤ bound)) {input : List Char}
    {value : Nat} :
    magnitude bound (trim input) = .matched value rest ↔
      lexicon.next? input = some (.numeral value, rest) := by
  cases start : trim input with
  | nil => simp [magnitude_apply, Lexicon.next_nil start]
  | cons char others =>
      cases digit : char.isDigit with
      | false =>
          have unread : lexicon.next? input ≠ some (.numeral value, rest) := by
            intro first
            obtain ⟨found, following, again, isDigit, -⟩ := Lexicon.next_numeral first
            cases start.symm.trans again
            rw [digit] at isDigit
            contradiction
          simp [magnitude_apply, digit, unread]
      | true =>
          rw [Lexicon.next_digit start (digit_not_lower digit) digit, admits, magnitude_apply,
            List.takeWhile_cons_of_pos digit, List.dropWhile_cons_of_pos digit]
          by_cases fits : decimalValue (char :: others.takeWhile Char.isDigit) ≤ bound <;>
            simp [fits]

theorem natural_takes
    (admits : ∀ value,
      lexicon.admits value = decide (value ≤ (IntegerType.unsigned 64).greatest)) :
    Takes lexicon natural Token.numeral? := by
  intro input value rest
  rw [natural, token_matched]
  simp only [nat, magnitude_matched admits]
  constructor
  · intro given
    obtain ⟨middle, first, reached⟩ := given
    exact ⟨_, middle, first, rfl, reached⟩
  · rintro ⟨_ | found | _, middle, first, passed, reached⟩ <;> cases passed
    exact ⟨middle, first, reached⟩

end Descent.Parser
