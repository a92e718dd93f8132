import Descent.Proofs.Parser.Absorption
import Descent.Proofs.Text.Longest
import Descent.Proofs.Writing
import Descent.Script.Grammar

/-!
The words of a text. A scanner takes the longest front of its kind, wherever the text goes on with another
character, and what it takes is compared with the keywords as a whole. Main statement: spaces, identifiers
and words are the longest that there are, and a name or a keyword is an identifier behind spaces, told
apart by the whole of it.
-/

namespace Descent

namespace Text

theorem is_lower_iff (char : Char) : char.isLower = true ↔ 'a' ≤ char ∧ char ≤ 'z' :=
  Bool.and_eq_true_iff.trans (and_congr decide_eq_true_iff decide_eq_true_iff)

theorem is_alpha_iff (char : Char) :
    char.isAlpha = true ↔ 'A' ≤ char ∧ char ≤ 'Z' ∨ 'a' ≤ char ∧ char ≤ 'z' := by
  have upper : char.isUpper = true ↔ 'A' ≤ char ∧ char ≤ 'Z' := decide_eq_true_iff
  exact Bool.or_eq_true_iff.trans (or_congr upper (is_lower_iff char))

theorem is_alphanum_iff (char : Char) :
    char.isAlphanum = true ↔ char.isAlpha = true ∨ '0' ≤ char ∧ char ≤ '9' := by
  have digit : char.isDigit = true ↔ '0' ≤ char ∧ char ≤ '9' :=
    Bool.and_eq_true_iff.trans (and_congr decide_eq_true_iff decide_eq_true_iff)
  exact Bool.or_eq_true_iff.trans (or_congr Iff.rfl digit)

theorem is_word_char_iff (char : Char) :
    isWordChar char = true ↔ char.isAlphanum = true ∨ char = '_' := by
  rw [isWordChar, Bool.or_eq_true, beq_iff_eq]

/-- A letter, and letters and digits after it. -/
def IsWord : String → Prop := IsRun Char.isAlpha Char.isAlphanum

end Text

open Text

namespace Parser

variable {α : Type} {starts continues : Char → Bool} {input rest : List Char} {text : String}

theorem scan_matched :
    scan starts continues input = .matched text rest ↔
      LongestFront (IsRun starts continues) input text rest := by
  cases input with
  | nil =>
      constructor
      · intro run
        contradiction
      · intro run
        obtain ⟨first, start, -⟩ := run.head_starts
        contradiction
  | cons char others =>
      rw [scan_cons]
      cases begins : starts char with
      | false =>
          constructor
          · intro run
            contradiction
          · intro run
            obtain ⟨first, start, other⟩ := run.head_starts
            cases start
            rw [begins] at other
            contradiction
      | true =>
          have longest : LongestFront (IsRun starts continues) (char :: others) _ _ :=
            longest_run begins others
          constructor
          · intro run
            cases run
            exact longest
          · intro run
            obtain ⟨rfl, rfl⟩ := longest.unique run
            rfl

theorem scan_is_matched :
    (scan starts continues input).isMatched = true ↔ ∃ first ∈ input.head?, starts first = true := by
  cases input with
  | nil => simp [scan_nil, Outcome.isMatched]
  | cons char others =>
      rw [scan_cons]
      cases begins : starts char <;> simp [begins, Outcome.isMatched]

/-- A scanner gives up only where it started. -/
theorem scan_failed {stop : List Char} (failed : scan starts continues input = .failed stop) :
    stop = input := by
  cases input with
  | nil =>
      cases failed
      rfl
  | cons char others =>
      rw [scan_cons] at failed
      split at failed
      · contradiction
      · cases failed
        rfl

theorem token_is_matched {parser : Parser α} :
    (token parser input).isMatched = (parser (trim input)).isMatched := by
  rw [token_apply]
  cases parser (trim input) with
  | matched value rest => rfl
  | failed stop => rfl

theorem space_apply (input : List Char) :
    space input = .matched (String.ofList (input.takeWhile isSpace)) (trim input) := by
  have skipped : skipSpace (input.takeWhile isSpace ++ trim input) = .matched () (trim input) := by
    rw [spaces_append_trim, skip_space_apply]
  have recognized := recognize_of_matched skipped
  rw [spaces_append_trim] at recognized
  exact recognized

end Parser

open Descent.Parser Descent.Script

variable {input rest : List Char} {text key : String}

theorem identifier_matched :
    identifier input = .matched text rest ↔ LongestFront IsIdentifier input text rest := scan_matched

theorem word_matched :
    word input = .matched text rest ↔
      ∃ middle, LongestFront IsWord (trim input) text middle ∧ trim middle = rest := by
  rw [word, token_matched]
  exact exists_congr fun middle => and_congr_left' scan_matched

theorem variable_name_matched :
    variableName input = .matched text rest ↔
      text ∉ keywords ∧
        ∃ middle, identifier (trim input) = .matched text middle ∧ trim middle = rest := by
  rw [variableName, verify_matched, token_matched, and_comm]
  simp

theorem keyword_matched :
    keyword key input = .matched text rest ↔
      text = key ∧
        ∃ middle, identifier (trim input) = .matched text middle ∧ trim middle = rest := by
  rw [keyword, verify_matched, token_matched, and_comm, beq_iff_eq]

theorem keyword_unmatched {middle : List Char}
    (scanned : identifier (trim input) = .matched text middle) (other : text ≠ key) :
    (keyword key input).isMatched = false := by
  cases run : keyword key input with
  | failed stop => rfl
  | matched found last =>
      obtain ⟨rfl, middle', again, -⟩ := keyword_matched.mp run
      rw [scanned] at again
      cases again
      contradiction

/-- No keyword is the start of another one. -/
theorem longer_not_keyword (known : key ∈ keywords) (starts : key.toList <+: text.toList)
    (longer : text ≠ key) : text ∉ keywords := by
  have apart : ∀ key ∈ keywords, ∀ other ∈ keywords, key.toList <+: other.toList → other = key := by
    decide +kernel
  intro member
  exact longer (apart key known text member starts)

theorem words_are_longest :
    ((∀ char, isSpace char = true ↔ char ∈ [' ', '\t', '\n', '\x0c', '\r']) ∧
      (∀ char : Char, char.isLower = true ↔ 'a' ≤ char ∧ char ≤ 'z') ∧
      (∀ char : Char, char.isAlpha = true ↔ 'A' ≤ char ∧ char ≤ 'Z' ∨ 'a' ≤ char ∧ char ≤ 'z') ∧
      (∀ char : Char, char.isAlphanum = true ↔ char.isAlpha = true ∨ '0' ≤ char ∧ char ≤ '9') ∧
      ∀ char, isWordChar char = true ↔ char.isAlphanum = true ∨ char = '_') ∧
    ∀ input,
      (∃ text rest, space input = .matched text rest ∧
        LongestFront (AllPass isSpace) input text rest) ∧
      ((identifier input).isMatched = true ↔ ∃ first ∈ input.head?, first.isLower = true) ∧
      (∀ text rest, identifier input = .matched text rest ↔
        LongestFront IsIdentifier input text rest) ∧
      (∀ stop, identifier input = .failed stop → stop = input) ∧
      ((word input).isMatched = true ↔
        ∃ first ∈ (input.dropWhile isSpace).head?, first.isAlpha = true) ∧
      (∀ text rest, word input = .matched text rest ↔
        ∃ middle, LongestFront IsWord (input.dropWhile isSpace) text middle ∧
          middle.dropWhile isSpace = rest) ∧
      (∀ text rest, variableName input = .matched text rest ↔
        text ∉ ["fn", "if", "else"] ∧
          ∃ middle, identifier (input.dropWhile isSpace) = .matched text middle ∧
            middle.dropWhile isSpace = rest) ∧
      (∀ key ∈ ["fn", "if", "else"], ∀ text rest, keyword key input = .matched text rest ↔
        text = key ∧
          ∃ middle, identifier (input.dropWhile isSpace) = .matched text middle ∧
            middle.dropWhile isSpace = rest) ∧
      ∀ key ∈ ["fn", "if", "else"], ∀ text middle,
        identifier (input.dropWhile isSpace) = .matched text middle →
        key.toList <+: text.toList → text ≠ key →
          variableName input = .matched text (middle.dropWhile isSpace) ∧
            ∀ other ∈ ["fn", "if", "else"], (keyword other input).isMatched = false := by
  refine ⟨⟨is_space_iff, is_lower_iff, is_alpha_iff, is_alphanum_iff, is_word_char_iff⟩, ?_⟩
  intro input
  refine ⟨⟨_, _, space_apply input, longest_pass isSpace input⟩, scan_is_matched, ?_, ?_, ?_, ?_, ?_,
    ?_, ?_⟩
  · intro text rest
    exact identifier_matched
  · intro stop failed
    exact scan_failed failed
  · rw [word, token_is_matched]
    exact scan_is_matched
  · intro text rest
    exact word_matched
  · intro text rest
    exact variable_name_matched
  · intro key known text rest
    exact keyword_matched
  · intro key known text middle scanned starts longer
    have other := longer_not_keyword known starts longer
    refine ⟨variable_name_matched.mpr ⟨other, middle, scanned, rfl⟩, ?_⟩
    intro key member
    apply keyword_unmatched scanned
    rintro rfl
    exact other member

/-- A word goes on to the first character that cannot be in it, and it can start with a keyword. -/
theorem name_starts_with_keyword :
    identifier ("\n iffy_é".toList.dropWhile isSpace) = .matched "iffy_" ['é'] ∧
      "if" ∈ ["fn", "if", "else"] ∧ "if".toList <+: "iffy_".toList ∧ "iffy_" ≠ "if" ∧
      variableName "\n iffy_é".toList = .matched "iffy_" ['é'] ∧
      (∀ other ∈ ["fn", "if", "else"], (keyword other "\n iffy_é".toList).isMatched = false) ∧
      LongestFront IsIdentifier "iffy_é".toList "iffy_" ['é'] ∧
      keyword "fn" "fn f".toList = .matched "fn" ['f'] ∧
      variableName "fn f".toList ≠ .matched "fn" ['f'] := by
  obtain ⟨-, scanned⟩ := words_are_longest
  have gap : "\n iffy_é".toList.dropWhile isSpace = "iffy_é".toList := by decide
  have word : identifier "iffy_é".toList = .matched "iffy_" ['é'] := identifier_cons 'i' _
  have short : identifier "fn f".toList = .matched "fn" [' ', 'f'] := identifier_cons 'f' _
  have known : "if" ∈ ["fn", "if", "else"] := by decide
  have starts : "if".toList <+: "iffy_".toList := ⟨['f', 'y', '_'], rfl⟩
  have longer : "iffy_" ≠ "if" := by decide
  obtain ⟨-, -, -, -, -, -, -, -, names⟩ := scanned "\n iffy_é".toList
  obtain ⟨-, -, longest, -⟩ := scanned "iffy_é".toList
  obtain ⟨-, -, -, -, -, -, nameless, keywords, -⟩ := scanned "fn f".toList
  rw [gap] at names
  rw [gap]
  obtain ⟨name, none⟩ := names "if" known _ _ word starts longer
  refine ⟨word, known, starts, longer, name, none, (longest _ _).mp word, ?_, ?_⟩
  · exact (keywords "fn" (by decide) _ _).mpr ⟨rfl, [' ', 'f'], short, rfl⟩
  · intro found
    exact ((nameless _ _).mp found).1 (by decide)

end Descent
