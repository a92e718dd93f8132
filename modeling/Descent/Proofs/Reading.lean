import Descent.Proofs.Text.Leading
import Descent.Token

/-!
Reading a text token by token. A token is read off the front of a text, spaces before it skipped,
and the text after it is left over. A row of tokens is read up to a place in the text, and a place
is known up to the spaces there. The tokens of a text are those that are read up to its end.
-/

namespace Descent

namespace Token

def word? : Token → Option String
  | word text => some text
  | _ => none

def numeral? : Token → Option Nat
  | numeral value => some value
  | _ => none

/-- The text of the sign `char`, for a token that is this sign. -/
def sign? (char : Char) (token : Token) : Option String :=
  if token = sign char then some (String.singleton char) else none

theorem sign_eq_some {char : Char} {token : Token} {text : String} :
    sign? char token = some text ↔ token = sign char ∧ String.singleton char = text := by
  rw [sign?, Option.ite_none_right_eq_some, Option.some.injEq]

end Token

namespace Lexicon

open Text

variable {lexicon : Lexicon}

/-- The first token of a text and the text after it. -/
def next? (lexicon : Lexicon) (input : List Char) : Option (Token × List Char) :=
  (lexicon.token? (cut (trim input)).1).map fun token => (token, (cut (trim input)).2)

inductive Reads (lexicon : Lexicon) : List Char → List Token → List Char → Prop where
  | done {input rest : List Char} (same : trim input = trim rest) : Reads lexicon input [] rest
  | next {input middle rest : List Char} {token : Token} {tokens : List Token}
      (first : lexicon.next? input = some (token, middle))
      (others : Reads lexicon middle tokens rest) : Reads lexicon input (token :: tokens) rest

theorem next_congr {input other : List Char} (same : trim input = trim other) :
    lexicon.next? input = lexicon.next? other := by
  rw [next?, next?, same]

theorem next_trim (input : List Char) : lexicon.next? (trim input) = lexicon.next? input :=
  next_congr (trim_trim input)

theorem next_nil {input : List Char} (blank : trim input = []) : lexicon.next? input = none := by
  rw [next?, blank]
  rfl

theorem next_visible {input middle : List Char} {token : Token}
    (first : lexicon.next? input = some (token, middle)) :
    ∃ char rest, trim input = char :: rest ∧ lexicon.token? (cut (char :: rest)).1 = some token ∧
      (cut (char :: rest)).2 = middle := by
  cases start : trim input with
  | nil => rw [next_nil start] at first; contradiction
  | cons char rest =>
      rw [next?, start] at first
      obtain ⟨found, read, pair⟩ := Option.map_eq_some_iff.mp first
      cases pair
      exact ⟨char, rest, rfl, read, rfl⟩

theorem next_suffix {input middle : List Char} {token : Token}
    (first : lexicon.next? input = some (token, middle)) : middle <:+ trim input := by
  obtain ⟨char, rest, start, -, rfl⟩ := next_visible first
  rw [start]
  exact ⟨_, cut_eq_append (char :: rest)⟩

theorem next_lt {input middle : List Char} {token : Token}
    (first : lexicon.next? input = some (token, middle)) :
    middle.length < (trim input).length := by
  obtain ⟨char, rest, start, -, rfl⟩ := next_visible first
  rw [start]
  exact cut_rest_lt char rest

namespace Reads

theorem refl (input : List Char) : Reads lexicon input [] input := .done rfl

theorem congr_left {input other rest : List Char} {tokens : List Token}
    (same : trim input = trim other) (reads : Reads lexicon input tokens rest) :
    Reads lexicon other tokens rest := by
  cases reads with
  | done ended => exact .done (same.symm.trans ended)
  | next first others => exact .next (next_congr same ▸ first) others

theorem congr_right {input rest other : List Char} {tokens : List Token}
    (same : trim rest = trim other) (reads : Reads lexicon input tokens rest) :
    Reads lexicon input tokens other := by
  induction reads with
  | done ended => exact .done (ended.trans same)
  | next first _ ih => exact .next first (ih same)

theorem single {input middle : List Char} {token : Token}
    (first : lexicon.next? input = some (token, middle)) :
    Reads lexicon input [token] middle := .next first (refl middle)

theorem append {input middle rest : List Char} {tokens others : List Token}
    (first : Reads lexicon input tokens middle) (second : Reads lexicon middle others rest) :
    Reads lexicon input (tokens ++ others) rest := by
  induction first with
  | done same => exact second.congr_left same.symm
  | next first _ ih => exact .next first (ih second)

theorem split {input rest : List Char} {tokens others : List Token}
    (reads : Reads lexicon input (tokens ++ others) rest) :
    ∃ middle, Reads lexicon input tokens middle ∧ Reads lexicon middle others rest := by
  induction tokens generalizing input with
  | nil => exact ⟨input, refl input, reads⟩
  | cons token tokens ih =>
      cases reads with
      | next first following =>
          obtain ⟨middle, before, after⟩ := ih following
          exact ⟨middle, .next first before, after⟩

theorem uncons {input rest : List Char} {token : Token} {tokens : List Token}
    (reads : Reads lexicon input (token :: tokens) rest) :
    ∃ middle, lexicon.next? input = some (token, middle) ∧ Reads lexicon middle tokens rest := by
  cases reads with
  | next first others => exact ⟨_, first, others⟩

theorem cons {input rest : List Char} {token : Token} {tokens : List Token}
    (reads : Reads lexicon input (token :: tokens) rest) :
    ∃ middle, Reads lexicon input [token] middle ∧ Reads lexicon middle tokens rest := by
  obtain ⟨middle, first, others⟩ := reads.uncons
  exact ⟨middle, single first, others⟩

theorem enclosed {input rest : List Char} {first last : Token} {tokens : List Token}
    (reads : Reads lexicon input (first :: tokens ++ [last]) rest) :
    ∃ middle inner, Reads lexicon input [first] middle ∧ Reads lexicon middle tokens inner ∧
      Reads lexicon inner [last] rest := by
  obtain ⟨inner, front, closed⟩ := reads.split
  obtain ⟨middle, opened, others⟩ := front.cons
  exact ⟨middle, inner, opened, others, closed⟩

theorem same_place {input rest : List Char} (reads : Reads lexicon input [] rest) :
    trim input = trim rest := by
  cases reads with
  | done same => exact same

theorem next_ne {input rest : List Char} {token other : Token} {tokens : List Token}
    (reads : Reads lexicon input (token :: tokens) rest) (differs : token ≠ other)
    (middle : List Char) : lexicon.next? input ≠ some (other, middle) := by
  obtain ⟨place, first, -⟩ := reads.uncons
  intro again
  cases first.symm.trans again
  exact differs rfl

theorem suffix {input rest : List Char} {tokens : List Token}
    (reads : Reads lexicon input tokens rest) : trim rest <:+ trim input := by
  induction reads with
  | done same => exact same ▸ List.suffix_refl _
  | next first _ ih => exact (ih.trans (trim_suffix _)).trans (next_suffix first)

theorem shorter {input rest : List Char} {token : Token} {tokens : List Token}
    (reads : Reads lexicon input (token :: tokens) rest) :
    (trim rest).length < (trim input).length := by
  obtain ⟨middle, first, others⟩ := reads.uncons
  have less := next_lt first
  have kept := (others.suffix.trans (trim_suffix middle)).length_le
  omega

/-- One text cannot be read as two rows of tokens of which neither starts the other. -/
theorem compare {input rest other : List Char} {tokens more : List Token}
    (reads : Reads lexicon input tokens rest) (reread : Reads lexicon input more other)
    (fewer : tokens.length ≤ more.length) :
    ∃ others, more = tokens ++ others ∧ Reads lexicon rest others other := by
  induction reads generalizing more with
  | done same => exact ⟨more, rfl, reread.congr_left same⟩
  | next first _ ih =>
      cases reread with
      | done _ => exact absurd fewer (Nat.not_succ_le_zero _)
      | next again following =>
          cases first.symm.trans again
          obtain ⟨others, rfl, after⟩ := ih following (Nat.le_of_succ_le_succ fewer)
          exact ⟨others, rfl, after⟩

theorem unique {input rest : List Char} {tokens more : List Token}
    (reads : Reads lexicon input tokens rest) (reread : Reads lexicon input more rest) :
    tokens = more := by
  have equal {fewer longer : List Token} (less : fewer.length ≤ longer.length)
      (first : Reads lexicon input fewer rest) (second : Reads lexicon input longer rest) :
      fewer = longer := by
    obtain ⟨others, rfl, further⟩ := first.compare second less
    cases others with
    | nil => exact (List.append_nil _).symm
    | cons token others => exact absurd further.shorter (Nat.lt_irrefl _)
  rcases Nat.le_total tokens.length more.length with less | less
  · exact equal less reads reread
  · exact (equal less reread reads).symm

end Reads

theorem tokens_nil : lexicon.tokens? [] = some [] := by simp [tokens?, lexemes]

theorem tokens_space {char : Char} (space : isSpace char = true) (rest : List Char) :
    lexicon.tokens? (char :: rest) = lexicon.tokens? rest := by
  have plain : char.isLower = false ∧ char.isDigit = false := by
    simp only [isSpace, Bool.or_eq_true, beq_iff_eq] at space
    rcases space with (((rfl | rfl) | rfl) | rfl) | rfl <;> exact ⟨rfl, rfl⟩
  simp [tokens?, lexemes_cons, cut_single plain.1 plain.2, space]

theorem tokens_trim (input : List Char) : lexicon.tokens? (trim input) = lexicon.tokens? input := by
  induction input with
  | nil => rfl
  | cons char rest ih =>
      cases space : isSpace char with
      | true => rw [trim_space space, ih, tokens_space space]
      | false => rw [trim_other space]

theorem tokens_visible {char : Char} (visible : isSpace char = false) (rest : List Char) :
    lexicon.tokens? (char :: rest) =
      (lexicon.next? (char :: rest)).bind fun (token, middle) =>
        (lexicon.tokens? middle).map (token :: ·) := by
  have kept : ((cut (char :: rest)).1.all isSpace) = false := by
    simp only [cut]
    split
    · simp [visible]
    · split <;> simp [visible]
  simp only [tokens?, lexemes_cons, List.filter_cons, kept, Bool.not_false, if_true,
    List.mapM_cons, next?, trim_other visible]
  cases lexicon.token? (cut (char :: rest)).1 with
  | none => rfl
  | some token =>
      simp only [Option.bind_some, Option.map_eq_bind]
      rfl

/-- The tokens of a text are read up to its end. -/
theorem tokens_iff {input : List Char} {tokens : List Token} :
    lexicon.tokens? input = some tokens ↔ Reads lexicon input tokens [] := by
  constructor
  · intro found
    induction length : input.length using Nat.strongRecOn generalizing input tokens with
    | ind bound ih =>
        rw [← tokens_trim] at found
        cases start : trim input with
        | nil =>
            rw [start, tokens_nil] at found
            cases found
            exact .done start
        | cons char rest =>
            rw [start, tokens_visible (trim_head start), ← start, next_trim] at found
            obtain ⟨⟨token, middle⟩, first, others⟩ := Option.bind_eq_some_iff.mp found
            obtain ⟨following, read, rfl⟩ := Option.map_eq_some_iff.mp others
            have less := next_lt first
            have short := (trim_suffix input).length_le
            exact .next first (ih middle.length (by omega) read rfl)
  · intro reads
    generalize final : ([] : List Char) = rest at reads
    induction reads with
    | done same =>
        subst final
        rw [← tokens_trim, same, trim_nil, tokens_nil]
    | @next input middle rest token tokens first others ih =>
        obtain ⟨char, others, start, -, -⟩ := next_visible first
        rw [← tokens_trim, start, tokens_visible (trim_head start), ← start, next_trim, first]
        simp [ih final]

/-! The kinds of tokens, by the characters that they start with. -/

theorem next_lower {char : Char} {input rest : List Char} (start : trim input = char :: rest)
    (lower : char.isLower = true) (words : lexicon.hasWords = true) :
    lexicon.next? input =
      some (.word (String.ofList (char :: rest.takeWhile isWordChar)),
        rest.dropWhile isWordChar) := by
  rw [next?, start, cut_lower lower]
  simp [token?, lower, words]

theorem next_digit {char : Char} {input rest : List Char} (start : trim input = char :: rest)
    (lower : char.isLower = false) (digit : char.isDigit = true) :
    lexicon.next? input =
      if lexicon.admits (decimalValue (char :: rest.takeWhile Char.isDigit)) then
        some (.numeral (decimalValue (char :: rest.takeWhile Char.isDigit)),
          rest.dropWhile Char.isDigit)
      else none := by
  rw [next?, start, cut_digit lower digit]
  cases admitted : lexicon.admits (decimalValue (char :: rest.takeWhile Char.isDigit)) <;>
    simp [token?, lower, digit, admitted]

theorem next_single {char : Char} {input rest : List Char} (start : trim input = char :: rest)
    (lower : char.isLower = false) (digit : char.isDigit = false) :
    lexicon.next? input =
      if lexicon.signs.contains char then some (.sign char, rest) else none := by
  rw [next?, start, cut_single lower digit]
  by_cases known : char ∈ lexicon.signs <;> simp [token?, lower, digit, known]

theorem next_word {input middle : List Char} {text : String}
    (first : lexicon.next? input = some (.word text, middle)) :
    ∃ char rest, trim input = char :: rest ∧ char.isLower = true ∧
      text = String.ofList (char :: rest.takeWhile isWordChar) ∧
      middle = rest.dropWhile isWordChar := by
  obtain ⟨char, rest, start, read, left⟩ := next_visible first
  cases lower : char.isLower with
  | true =>
      rw [cut_lower lower] at read left
      cases words : lexicon.hasWords with
      | false => simp [token?, lower, words] at read
      | true =>
          rw [next_lower start lower words] at first
          cases first
          exact ⟨char, rest, start, lower, rfl, rfl⟩
  | false =>
      cases digit : char.isDigit with
      | true => rw [next_digit start lower digit] at first; split at first <;> cases first
      | false => rw [next_single start lower digit] at first; split at first <;> cases first

theorem next_numeral {input middle : List Char} {value : Nat}
    (first : lexicon.next? input = some (.numeral value, middle)) :
    ∃ char rest, trim input = char :: rest ∧ char.isDigit = true ∧
      lexicon.admits value = true ∧
      value = decimalValue (char :: rest.takeWhile Char.isDigit) ∧
      middle = rest.dropWhile Char.isDigit := by
  obtain ⟨char, rest, start, read, left⟩ := next_visible first
  cases lower : char.isLower with
  | true =>
      rw [cut_lower lower] at read
      cases words : lexicon.hasWords <;> simp [token?, lower, words] at read
  | false =>
      cases digit : char.isDigit with
      | false => rw [next_single start lower digit] at first; split at first <;> cases first
      | true =>
          rw [next_digit start lower digit] at first
          split at first
          · next admitted =>
              cases first
              exact ⟨char, rest, start, digit, admitted, rfl, rfl⟩
          · contradiction

theorem next_sign {input middle : List Char} {char : Char}
    (first : lexicon.next? input = some (.sign char, middle)) :
    trim input = char :: middle ∧ char ∈ lexicon.signs := by
  obtain ⟨found, rest, start, read, left⟩ := next_visible first
  cases lower : found.isLower with
  | true =>
      rw [cut_lower lower] at read
      cases words : lexicon.hasWords <;> simp [token?, lower, words] at read
  | false =>
      cases digit : found.isDigit with
      | true => rw [next_digit start lower digit] at first; split at first <;> cases first
      | false =>
          rw [next_single start lower digit] at first
          split at first
          · next known =>
              cases first
              exact ⟨start, by simpa using known⟩
          · contradiction

/-! How far a token looks ahead: not beyond the place where it ends, and a sign not even there. -/

theorem next_front {front back rest : List Char} {token : Token}
    (first : lexicon.next? (front ++ back) = some (token, rest ++ back))
    (inside : trim front ≠ []) : lexicon.next? front = some (token, rest) := by
  obtain ⟨char, others, start, read, left⟩ := next_visible first
  rw [trim_append inside] at start
  rw [← start] at read left
  have same := cut_front inside left
  rw [next?, same, read]
  rfl

theorem token_sign {char : Char} {rest : List Char} {token : Token}
    (read : lexicon.token? (cut (char :: rest)).1 = some token)
    (plain : token.isWordlike = false) : char.isLower = false ∧ char.isDigit = false := by
  cases lower : char.isLower with
  | true =>
      rw [cut_lower lower] at read
      simp only [token?, lower, if_true] at read
      split at read
      · cases read
        contradiction
      · contradiction
  | false =>
      cases digit : char.isDigit with
      | true =>
          rw [cut_digit lower digit] at read
          simp only [token?, lower, digit, Bool.false_eq_true, if_false, if_true] at read
          split at read
          · cases read
            contradiction
          · contradiction
      | false => exact ⟨rfl, rfl⟩

theorem next_append {front rest : List Char} {token : Token}
    (first : lexicon.next? front = some (token, rest))
    (apart : rest ≠ [] ∨ token.isWordlike = false) (back : List Char) :
    lexicon.next? (front ++ back) = some (token, rest ++ back) := by
  obtain ⟨char, others, start, read, rfl⟩ := next_visible first
  have inside : trim front ≠ [] := by simp [start]
  have ends := apart.imp_right (token_sign read)
  rw [next?, trim_append inside, start, cut_append ends, read]
  rfl

/-- Tokens that are read up to the end of a front are read up to there in the whole text, unless
the last of them could go on. -/
theorem reads_append {front rest : List Char} {tokens : List Token}
    (reads : Reads lexicon front tokens rest) (ended : rest = [])
    (apart : ∀ token ∈ tokens.getLast?, token.isWordlike = false) (back : List Char) :
    Reads lexicon (front ++ back) tokens back := by
  induction reads with
  | done same =>
      rw [ended] at same
      exact .done (trim_append_of_spaces same back)
  | @next input middle rest token tokens first others ih =>
      subst ended
      cases tokens with
      | nil =>
          have plain := apart token (by simp)
          exact .next (next_append first (.inr plain) back) (ih rfl (by simp))
      | cons second tokens =>
          have left : middle ≠ [] := by
            intro same
            subst same
            have shorter := others.shorter
            exact absurd shorter (Nat.not_lt_zero _)
          rw [List.getLast?_cons_cons] at apart
          exact .next (next_append first (.inl left) back) (ih rfl apart)

theorem front_blank {front back : List Char} (reads : Reads lexicon (front ++ back) [] back)
    (trimmed : trim back = back) : trim front = [] := by
  have same := reads.same_place
  rw [trimmed] at same
  by_contra visible
  rw [trim_append visible, List.append_left_eq_self] at same
  exact visible same

/-- A token before a place where reading goes on is read off the text in front of that place. -/
theorem next_inside {front back middle : List Char} {token : Token} {tokens : List Token}
    (first : lexicon.next? (front ++ back) = some (token, middle))
    (others : Reads lexicon middle tokens back) (trimmed : trim back = back) :
    ∃ rest, middle = rest ++ back ∧ trim front ≠ [] := by
  have remains := others.suffix
  rw [trimmed] at remains
  obtain ⟨rest, rfl⟩ := remains.trans (trim_suffix middle)
  refine ⟨rest, rfl, ?_⟩
  intro blank
  have less := next_lt first
  rw [trim_append_of_spaces blank, trimmed, List.length_append] at less
  omega

/-- Tokens that are read up to a place are the tokens of the text before it. -/
theorem reads_front {front back : List Char} {tokens : List Token}
    (reads : Reads lexicon (front ++ back) tokens back) (trimmed : trim back = back) :
    Reads lexicon front tokens [] := by
  induction tokens generalizing front with
  | nil => exact .done (front_blank reads trimmed)
  | cons token tokens ih =>
      obtain ⟨middle, first, others⟩ := reads.uncons
      obtain ⟨rest, rfl, inside⟩ := next_inside first others trimmed
      exact .next (next_front first inside) (ih others)

end Lexicon

end Descent
