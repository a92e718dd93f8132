import Descent.Proofs.Writing

/-!
Seams: the places where a text can be cut in two without a cut through a lexeme. Before a seam the
tokens of the text are the tokens of its front alone, and where a text is read up to a place, that
place is a seam. Main statement: a place is a seam unless it is inside a run of digits or a word.
-/

namespace Descent

namespace Text

/-- The lexemes of the text are those of its two parts. -/
def IsSeam (front back : List Char) : Prop :=
  lexemes (front ++ back) = lexemes front ++ lexemes back

/-- The cut between the two parts is inside a run of digits. -/
def SplitsDigits (front back : List Char) : Prop :=
  ∃ last ∈ front.getLast?, ∃ first ∈ back.head?, last.isDigit = true ∧ first.isDigit = true

/-- The cut between the two parts is inside a word: a lowercase letter and characters of words stand
in front of it, and another one behind it. -/
def SplitsWord (front back : List Char) : Prop :=
  ∃ first others, first :: others <:+ front ∧ first.isLower = true ∧
    (∀ char ∈ others, isWordChar char = true) ∧ ∃ next ∈ back.head?, isWordChar next = true

theorem seam_nil (back : List Char) : IsSeam [] back := by
  rw [IsSeam, lexemes]
  rfl

/-- A seam after a text is a place where the first lexeme ends as it does in the text alone, and a
seam after what follows that lexeme. -/
theorem seam_iff_cut {front back : List Char} (visible : front ≠ []) :
    IsSeam front back ↔
      cut (front ++ back) = ((cut front).1, (cut front).2 ++ back) ∧ IsSeam (cut front).2 back := by
  obtain ⟨char, others, rfl⟩ := List.exists_cons_of_ne_nil visible
  have whole := cut_eq_append (char :: others ++ back)
  rw [IsSeam, IsSeam]
  rw [List.cons_append] at whole ⊢
  rw [lexemes_cons, lexemes_cons, List.cons_append, List.cons.injEq]
  constructor
  · intro given
    obtain ⟨same, following⟩ := given
    have both : (cut (char :: others)).1 ++ (cut (char :: (others ++ back))).2 =
        (cut (char :: others)).1 ++ ((cut (char :: others)).2 ++ back) := by
      rw [← List.append_assoc, cut_eq_append, ← same, whole, List.cons_append]
    have left := List.append_cancel_left both
    rw [left] at following
    exact ⟨Prod.ext same left, following⟩
  · intro given
    obtain ⟨same, following⟩ := given
    rw [same]
    exact ⟨rfl, following⟩

theorem seam_trim (front back : List Char) : IsSeam (trim front) back ↔ IsSeam front back := by
  induction front with
  | nil => rfl
  | cons char others ih =>
      cases space : isSpace char with
      | false => rw [trim_other space]
      | true =>
          obtain ⟨lower, digit⟩ := not_word_char (space_not_word_char space)
          rw [trim_space space, ih, seam_iff_cut (List.cons_ne_nil char others), List.cons_append,
            cut_single lower digit, cut_single lower digit]
          exact (and_iff_right rfl).symm

theorem splits_digits_suffix {front rest : List Char} (suffix : rest <:+ front)
    (visible : rest ≠ []) (back : List Char) : SplitsDigits front back ↔ SplitsDigits rest back := by
  obtain ⟨gap, rfl⟩ := suffix
  rw [SplitsDigits, SplitsDigits, List.getLast?_append, List.getLast?_eq_some_getLast visible,
    Option.some_or]

/-- Only characters of words and digits go on with a lexeme. -/
theorem mem_cut {char found : Char} {rest : List Char} (member : found ∈ (cut (char :: rest)).1) :
    found = char ∨ char.isLower = true ∧ isWordChar found = true ∨ found.isDigit = true := by
  cases lower : char.isLower with
  | true =>
      rw [cut_lower lower] at member
      exact (List.mem_cons.mp member).imp_right fun later =>
        .inl ⟨rfl, List.mem_takeWhile_imp later⟩
  | false =>
      cases digit : char.isDigit with
      | true =>
          rw [cut_digit lower digit] at member
          exact (List.mem_cons.mp member).imp_right fun later =>
            .inr (List.mem_takeWhile_imp later)
      | false =>
          rw [cut_single lower digit] at member
          exact .inl (List.mem_singleton.mp member)

/-- Where a lowercase letter is in a lexeme, the lexeme is a word, so no word goes on behind it. -/
theorem cut_word_ends {char found next : Char} {rest others : List Char}
    (member : found ∈ (cut (char :: rest)).1) (lower : found.isLower = true)
    (following : (cut (char :: rest)).2 = next :: others) : isWordChar next = false := by
  have starts : char.isLower = true := by
    rcases mem_cut member with rfl | ⟨starts, -⟩ | digit
    · exact lower
    · exact starts
    · exact absurd lower (Bool.eq_false_iff.mp (digit_not_lower digit))
  rw [cut_lower starts] at following
  have ended := List.head?_dropWhile_not isWordChar rest
  rw [show rest.dropWhile isWordChar = next :: others from following] at ended
  exact ended

theorem splits_word_cut {char : Char} {rest : List Char} (left : (cut (char :: rest)).2 ≠ [])
    (back : List Char) :
    SplitsWord (char :: rest) back ↔ SplitsWord (cut (char :: rest)).2 back := by
  have whole := cut_eq_append (char :: rest)
  constructor
  · intro given
    obtain ⟨first, others, ⟨before, split⟩, lower, letters, ends⟩ := given
    refine ⟨first, others, ?_, lower, letters, ends⟩
    rcases List.append_eq_append_iff.mp (split.trans whole.symm) with
      ⟨part, lexeme, word⟩ | ⟨gap, -, remains⟩
    · cases part with
      | nil => exact ⟨[], word⟩
      | cons start part =>
          -- a word that starts in the lexeme would run through what is left
          obtain ⟨next, more, following⟩ := List.exists_cons_of_ne_nil left
          rw [following, List.cons_append, List.cons.injEq] at word
          obtain ⟨rfl, rfl⟩ := word
          have inside : first ∈ (cut (char :: rest)).1 := by simp [lexeme]
          have ended := cut_word_ends inside lower following
          rw [letters next (by simp)] at ended
          contradiction
    · exact ⟨gap, remains.symm⟩
  · intro given
    obtain ⟨first, others, suffix, word⟩ := given
    exact ⟨first, others, suffix.trans ⟨_, whole⟩, word⟩

/-- A run that fills a text ends at a seam unless what follows goes on with it. -/
theorem seam_after_run {test : Char → Bool} {char : Char} {rest : List Char}
    (cuts : ∀ others, cut (char :: others) =
      (char :: others.takeWhile test, others.dropWhile test))
    (passes : ∀ found ∈ rest, test found = true) (back : List Char) :
    IsSeam (char :: rest) back ↔ ∀ next ∈ back.head?, test next = false := by
  rw [seam_iff_cut (List.cons_ne_nil char rest), List.cons_append, cuts, cuts,
    List.dropWhile_append_of_pos passes, List.takeWhile_append_of_pos passes,
    List.takeWhile_eq_self_iff.mpr passes, List.dropWhile_eq_nil_iff.mpr passes]
  cases back with
  | nil => simp [seam_nil]
  | cons next others =>
      cases more : test next with
      | true => simp [more]
      | false => simp [more, seam_nil]

/-- Where something is left of a text behind its first lexeme, a seam after the text is a seam after
what is left. -/
theorem seam_beyond {char : Char} {rest lexeme remains back : List Char}
    (cuts : cut (char :: rest) = (lexeme, remains)) (left : remains ≠ [])
    (given : IsSeam remains back ↔ ¬ SplitsDigits remains back ∧ ¬ SplitsWord remains back) :
    IsSeam (char :: rest) back ↔
      ¬ SplitsDigits (char :: rest) back ∧ ¬ SplitsWord (char :: rest) back := by
  have same : remains = (cut (char :: rest)).2 := by rw [cuts]
  subst same
  rw [seam_iff_cut (List.cons_ne_nil char rest), cut_append (.inl left), and_iff_right rfl, given,
    splits_digits_suffix ⟨_, cut_eq_append (char :: rest)⟩ left, splits_word_cut left]

theorem seam_after_word {char : Char} {rest : List Char} (lower : char.isLower = true)
    (letters : ∀ found ∈ rest, isWordChar found = true) (back : List Char) :
    IsSeam (char :: rest) back ↔
      ¬ SplitsDigits (char :: rest) back ∧ ¬ SplitsWord (char :: rest) back := by
  rw [seam_after_run (cut_lower lower) letters]
  constructor
  · intro ended
    constructor
    · rintro ⟨-, -, next, start, -, digit⟩
      exact absurd (word_char (.inr digit)) (Bool.eq_false_iff.mp (ended next start))
    · rintro ⟨-, -, -, -, -, next, start, letter⟩
      exact absurd letter (Bool.eq_false_iff.mp (ended next start))
  · intro given next start
    by_contra letter
    exact given.2 ⟨char, rest, List.suffix_refl _, lower, letters, next, start,
      by simpa using letter⟩

theorem seam_after_digits {char : Char} {rest : List Char} (digit : char.isDigit = true)
    (digits : ∀ found ∈ rest, found.isDigit = true) (back : List Char) :
    IsSeam (char :: rest) back ↔
      ¬ SplitsDigits (char :: rest) back ∧ ¬ SplitsWord (char :: rest) back := by
  have all : ∀ found ∈ char :: rest, found.isDigit = true :=
    List.forall_mem_cons.mpr ⟨digit, digits⟩
  rw [seam_after_run (cut_digit (digit_not_lower digit) digit) digits]
  constructor
  · intro ended
    constructor
    · rintro ⟨-, -, next, start, -, more⟩
      exact absurd more (Bool.eq_false_iff.mp (ended next start))
    · rintro ⟨first, others, suffix, lower, -⟩
      have run := digit_not_lower (all first (suffix.subset List.mem_cons_self))
      exact absurd lower (Bool.eq_false_iff.mp run)
  · intro given next start
    by_contra more
    have visible := List.cons_ne_nil char rest
    exact given.1 ⟨_, List.getLast?_eq_some_getLast visible, next, start,
      all _ (List.getLast_mem visible), by simpa using more⟩

theorem seam_after_single {char : Char} (lower : char.isLower = false)
    (digit : char.isDigit = false) (back : List Char) :
    IsSeam [char] back ↔ ¬ SplitsDigits [char] back ∧ ¬ SplitsWord [char] back := by
  have cuts : cut ([char] ++ back) = ((cut [char]).1, (cut [char]).2 ++ back) :=
    cut_append (.inr ⟨lower, digit⟩) back
  have ended : (cut [char]).2 = [] := by rw [cut_single lower digit]
  rw [seam_iff_cut (List.cons_ne_nil char []), and_iff_right cuts, ended]
  refine iff_of_true (seam_nil back) ⟨?_, ?_⟩
  · simp [SplitsDigits, digit]
  · rintro ⟨first, others, suffix, starts, -⟩
    have same := List.mem_singleton.mp (suffix.subset List.mem_cons_self)
    rw [same, lower] at starts
    contradiction

/-- A place is a seam unless it is inside a run of digits or inside a word. -/
theorem seam_iff (front back : List Char) :
    IsSeam front back ↔ ¬ SplitsDigits front back ∧ ¬ SplitsWord front back := by
  fun_induction lexemes front with
  | case1 => simp [seam_nil, SplitsDigits, SplitsWord]
  | case2 char rest lower ih =>
      by_cases left : rest.dropWhile isWordChar = []
      · exact seam_after_word lower (List.dropWhile_eq_nil_iff.mp left) back
      · exact seam_beyond (cut_lower lower rest) left ih
  | case3 char rest lower digit ih =>
      by_cases left : rest.dropWhile Char.isDigit = []
      · exact seam_after_digits digit (List.dropWhile_eq_nil_iff.mp left) back
      · exact seam_beyond (cut_digit (digit_not_lower digit) digit rest) left ih
  | case4 char rest lower digit ih =>
      have other : char.isLower = false := by simpa using lower
      have single : char.isDigit = false := by simpa using digit
      by_cases left : rest = []
      · subst left
        exact seam_after_single other single back
      · exact seam_beyond (cut_single other single rest) left ih

/-- Where no word starts, only digits can go on with a lexeme. -/
theorem seam_iff_digits {front : List Char} (wordless : ∀ char ∈ front, char.isLower = false)
    (back : List Char) : IsSeam front back ↔ ¬ SplitsDigits front back := by
  rw [seam_iff]
  apply and_iff_left
  rintro ⟨first, others, suffix, lower, -⟩
  have other := wordless first (suffix.subset List.mem_cons_self)
  exact absurd lower (Bool.eq_false_iff.mp other)

theorem spaces_in_front (text : List Char) : ∃ gap, trim gap = [] ∧ text = gap ++ trim text :=
  ⟨text.takeWhile isSpace, trim_eq_nil.mpr fun _ => List.mem_takeWhile_imp,
    List.takeWhile_append_dropWhile.symm⟩

theorem cut_visible {char : Char} (visible : isSpace char = false) (rest : List Char) :
    ∀ found ∈ (cut (char :: rest)).1, isSpace found = false := by
  intro found member
  rcases mem_cut member with rfl | ⟨-, word⟩ | digit
  · exact visible
  · by_contra space
    rw [space_not_word_char (by simpa using space)] at word
    contradiction
  · exact digit_not_space digit

theorem cut_wordless {char : Char} (lower : char.isLower = false) (rest : List Char) :
    ∀ found ∈ (cut (char :: rest)).1, found.isLower = false := by
  intro found member
  rcases mem_cut member with rfl | ⟨starts, -⟩ | digit
  · exact lower
  · rw [lower] at starts
    contradiction
  · exact digit_not_lower digit

theorem spaces_wordless {gap : List Char} (spaces : trim gap = []) :
    ∀ char ∈ gap, char.isLower = false := fun char member =>
  (not_word_char (space_not_word_char (trim_eq_nil.mp spaces char member))).1

end Text

namespace Lexicon

open Text

variable {lexicon : Lexicon} {front back : List Char} {tokens : List Token}

theorem next_seam {middle : List Char} {token : Token}
    (first : lexicon.next? front = some (token, middle)) (seam : IsSeam front back) :
    lexicon.next? (front ++ back) = some (token, middle ++ back) ∧ IsSeam middle back := by
  obtain ⟨char, rest, start, read, rfl⟩ := next_visible first
  have inside : trim front ≠ [] := by simp [start]
  obtain ⟨same, following⟩ := (seam_iff_cut inside).mp ((seam_trim front back).mpr seam)
  rw [start] at same following
  rw [next?, trim_append inside, start, same, read]
  exact ⟨rfl, following⟩

/-- The tokens of a front are read in the whole text, if no lexeme goes on beyond it. -/
theorem reads_before_seam (reads : lexicon.Reads front tokens []) (seam : IsSeam front back) :
    lexicon.Reads (front ++ back) tokens back := by
  generalize ended : ([] : List Char) = rest at reads
  induction reads with
  | done same =>
      rw [← ended] at same
      exact .done (trim_append_of_spaces same back)
  | next first others ih =>
      obtain ⟨again, following⟩ := next_seam first seam
      exact .next again (ih following ended)

theorem seam_of_reads (reads : lexicon.Reads (front ++ back) tokens back)
    (trimmed : trim back = back) : IsSeam front back := by
  induction tokens generalizing front with
  | nil =>
      rw [← seam_trim, front_blank reads trimmed]
      exact seam_nil back
  | cons token tokens ih =>
      obtain ⟨middle, first, others⟩ := reads.uncons
      obtain ⟨rest, rfl, inside⟩ := next_inside first others trimmed
      obtain ⟨char, following, start, -, left⟩ := next_visible first
      rw [trim_append inside] at start
      rw [← start] at left
      have same := cut_front inside left
      rw [← seam_trim, seam_iff_cut inside, same]
      exact ⟨Prod.ext rfl left, ih others⟩

/-- A token does not reach into the spaces at the end of a text. -/
theorem next_before_spaces {gap middle : List Char} {token : Token}
    (first : lexicon.next? (front ++ gap) = some (token, middle)) (spaces : trim gap = []) :
    ∃ rest, middle = rest ++ gap ∧ lexicon.next? front = some (token, rest) := by
  have inside : trim front ≠ [] := by
    intro blank
    rw [next_nil (by rw [trim_append_of_spaces blank, spaces])] at first
    contradiction
  obtain ⟨char, others, start, -, left⟩ := next_visible first
  have visible := cut_visible (trim_head start) others
  rw [trim_append inside] at start
  rw [← start] at left visible
  have whole := cut_eq_append (trim front ++ gap)
  rw [left] at whole
  rcases List.append_eq_append_iff.mp whole with ⟨rest, -, rfl⟩ | ⟨excess, same, split⟩
  · exact ⟨rest, rfl, next_front first inside⟩
  · cases excess with
    | nil =>
        cases split
        exact ⟨[], rfl, next_front first inside⟩
    | cons found excess =>
        have space : isSpace found = true := trim_eq_nil.mp spaces found (by simp [split])
        rw [visible found (by simp [same])] at space
        contradiction

/-- Spaces at the end of a text do not matter. -/
theorem reads_without_spaces {gap : List Char} (reads : lexicon.Reads (front ++ gap) tokens [])
    (spaces : trim gap = []) : lexicon.Reads front tokens [] := by
  induction tokens generalizing front with
  | nil =>
      have blank := trim_eq_nil.mp reads.same_place
      exact .done (trim_eq_nil.mpr fun char member => blank char (List.mem_append_left gap member))
  | cons token tokens ih =>
      obtain ⟨middle, first, others⟩ := reads.uncons
      obtain ⟨rest, rfl, alone⟩ := next_before_spaces first spaces
      exact .next alone (ih others)

/-- The tokens that are read up to a place are those of the text in front of it, however many
spaces stand there. -/
theorem reads_up_to (reads : lexicon.Reads (front ++ back) tokens back) :
    lexicon.Reads front tokens [] := by
  obtain ⟨gap, spaces, split⟩ := spaces_in_front back
  have placed := reads.congr_right (trim_trim back).symm
  rw [split, trim_append_of_spaces spaces, trim_trim, ← List.append_assoc] at placed
  exact reads_without_spaces (reads_front placed (trim_trim back)) spaces

theorem wordless_of_reads (words : lexicon.hasWords = false)
    (reads : lexicon.Reads front tokens []) : ∀ char ∈ front, char.isLower = false := by
  generalize ended : ([] : List Char) = rest at reads
  induction reads with
  | done same =>
      rw [← ended] at same
      exact spaces_wordless same
  | @next input middle rest token tokens first others ih =>
      obtain ⟨char, following, start, read, left⟩ := next_visible first
      have lower : char.isLower = false := by
        cases lower : char.isLower with
        | false => rfl
        | true =>
            rw [cut_lower lower] at read
            simp [token?, lower, words] at read
      obtain ⟨gap, spaces, split⟩ := spaces_in_front input
      rw [split, start, ← cut_eq_append (char :: following), left]
      simp only [List.forall_mem_append]
      exact ⟨spaces_wordless spaces, cut_wordless lower following, ih ended⟩

end Lexicon

end Descent
