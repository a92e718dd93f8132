import Descent.Parser.Listing
import Descent.Proofs.Parser.Agreement
import Descent.Proofs.Parser.Integers
import Descent.Proofs.Parser.Repetition

/-!
Lists of numbers in brackets. What follows a comma is a list again, or the comma is given back, so a
list is read from its first element on with one equation for each step. Main statement: the lists that
are read are exactly those that are written with brackets, single commas and numbers that fit, with any
spaces around them, and whatever breaks one of these rules is refused.
-/

namespace Descent

namespace Text

def IsGap (text : List Char) : Prop := ∀ char ∈ text, isSpace char = true

/-- A number in decimal digits, zeros in front allowed, and spaces around it. -/
inductive ElementText : Nat → List Char → Prop where
  | digits {before digits after : List Char} (front : IsGap before) (some : digits ≠ [])
      (all : ∀ char ∈ digits, char.isDigit = true) (back : IsGap after) :
      ElementText (decimalValue digits) (before ++ digits ++ after)

/-- One element or more, with a comma between two of them. -/
inductive ElementsText : List Nat → List Char → Prop where
  | last {value : Nat} {text : List Char} (element : ElementText value text) :
      ElementsText [value] text
  | next {value : Nat} {values : List Nat} {text following : List Char}
      (element : ElementText value text) (others : ElementsText values following) :
      ElementsText (value :: values) (text ++ ',' :: following)

/-- Elements in brackets, and spaces around each bracket. -/
inductive ListText (values : List Nat) : List Char → Prop where
  | brackets {before elements after : List Char} (front : IsGap before)
      (inner : ElementsText values elements) (back : IsGap after) :
      ListText values (before ++ '[' :: elements ++ ']' :: after)

/-- The list as it is printed. -/
def listText (values : List Nat) : List Char :=
  '[' :: [',', ' '].intercalate (values.map (Nat.toDigits 10)) ++ [']']

end Text

open Text

namespace Parser

variable {α : Type} {item : Parser α} {input place rest more : List Char} {first : α}

/-! Signs between spaces. -/

theorem symbol_matched {char : Char} {found : String} :
    symbol (String.singleton char) input = .matched found rest ↔
      found = String.singleton char ∧ ∃ more, trim input = char :: more ∧ trim more = rest := by
  rw [symbol, token_matched]
  simp only [literal_matched]
  constructor
  · rintro ⟨more, ⟨start, same⟩, ended⟩
    exact ⟨same, more, start, ended⟩
  · rintro ⟨same, more, start, ended⟩
    exact ⟨more, ⟨start, same⟩, ended⟩

theorem symbol_failed {char : Char} (other : char ∉ (trim input).head?) :
    ∃ stop, symbol (String.singleton char) input = .failed stop := by
  cases run : symbol (String.singleton char) input with
  | failed stop => exact ⟨stop, rfl⟩
  | matched found rest =>
      obtain ⟨-, more, start, -⟩ := symbol_matched.mp run
      rw [start] at other
      exact absurd rfl other

/-! Commas: what follows one is a list of its own, or the comma is given back. -/

/-- The item skips the spaces in front of it. -/
def Skips (item : Parser α) : Prop := ∀ input, item (trim input) = item input

theorem token_skips (parser : Parser α) : (token parser).Skips := by
  intro input
  rw [token_apply, token_apply, trim_trim]

theorem comma_separated_skips (skips : item.Skips) : (commaSeparated item).Skips := by
  intro input
  rw [commaSeparated, separated, bind_apply, bind_apply, skips]

theorem comma_consumes : (symbol ",").Consumes := token_consumes (literal_consumes ',')

theorem comma_matched (more : List Char) :
    symbol "," (',' :: more) = .matched "," (trim more) := by
  have sign : "," = String.singleton ',' := rfl
  rw [sign]
  exact symbol_matched.mpr ⟨rfl, more, trim_other rfl more, rfl⟩

theorem comma_last (found : item input = .matched first place) (other : ',' ∉ (trim place).head?) :
    commaSeparated item input = .matched [first] place := by
  apply separated_of_matched found
  obtain ⟨stop, failed⟩ := symbol_failed other
  have halts : (precededBy (symbol ",") item).Halts place := by
    have sign : "," = String.singleton ',' := rfl
    refine .inl ⟨stop, ?_⟩
    rw [precededBy, bind_apply, sign, failed, Outcome.and_then_failed]
  exact many_of_halts halts

theorem comma_next (slices : item.Slices) (skips : item.Skips)
    (found : item input = .matched first (',' :: more)) :
    commaSeparated item input =
      match commaSeparated item more with
      | .matched values rest => .matched (first :: values) rest
      | .failed _ => .matched [first] (',' :: more) := by
  cases second : item more with
  | failed stop =>
      have refused : commaSeparated item more = .failed stop := separated_of_failed second
      have halts : (precededBy (symbol ",") item).Halts (',' :: more) := by
        refine .inl ⟨stop, ?_⟩
        rw [precededBy, bind_apply, comma_matched, Outcome.and_then_matched, skips, second]
      rw [refused]
      exact separated_of_matched found (many_of_halts halts)
  | matched value middle =>
      have others : commaSeparated item more = .matched (value :: _) _ :=
        separated_of_matched second rfl
      have behind := (comma_separated_skips skips more).trans others
      rw [others]
      exact separated_next slices comma_consumes found (comma_matched more) behind

/-! Numbers between spaces. -/

theorem gap_ends_digits {gap : List Char} (spaces : IsGap gap)
    (ended : ∀ char ∈ place.head?, char.isDigit = false) :
    ∀ char ∈ (gap ++ place).head?, char.isDigit = false := by
  cases gap with
  | nil => exact ended
  | cons space gap =>
      rintro _ ⟨⟩
      by_contra digit
      have visible := digit_not_space (by simpa using digit)
      rw [spaces _ List.mem_cons_self] at visible
      contradiction

theorem trim_before_digits {before digits : List Char} (front : IsGap before) (some : digits ≠ [])
    (all : ∀ char ∈ digits, char.isDigit = true) (back : List Char) :
    trim (before ++ digits ++ back) = digits ++ back := by
  obtain ⟨char, others, rfl⟩ := List.exists_cons_of_ne_nil some
  have visible := digit_not_space (all char List.mem_cons_self)
  rw [List.append_assoc, trim_append_of_spaces (trim_eq_nil.mpr front)]
  exact trim_other visible (others ++ back)

/-- Whether a number is read in front of something else depends on its value only. -/
theorem natural_element {value : Nat} {text : List Char} (element : ElementText value text)
    (place : List Char) (ended : ∀ char ∈ place.head?, char.isDigit = false) :
    value ≤ (IntegerType.unsigned 64).greatest ∧
        natural (text ++ place) = .matched value (trim place) ∨
      (IntegerType.unsigned 64).greatest < value ∧
        ∃ stop, natural (text ++ place) = .failed stop := by
  cases element with
  | @digits before digits after front some all back =>
      have start := trim_before_digits front some all (after ++ place)
      have span : leadingDigits (digits ++ (after ++ place)) = digits ∧
          afterDigits (digits ++ (after ++ place)) = after ++ place :=
        span_run all (gap_ends_digits back ended)
      rw [natural, token_apply, List.append_assoc _ after, start, nat, magnitude_leading, span.1,
        span.2]
      by_cases fits : decimalValue digits ≤ (IntegerType.unsigned 64).greatest
      · left
        rw [if_pos ⟨some, fits⟩, Outcome.and_then_matched,
          trim_append_of_spaces (trim_eq_nil.mpr back)]
        exact ⟨fits, rfl⟩
      · right
        rw [if_neg (fun both => fits both.2)]
        exact ⟨Nat.lt_of_not_le fits, _, rfl⟩

theorem natural_element_of_matched {value : Nat} (run : natural input = .matched value rest) :
    ∃ text, ElementText value text ∧ text ++ rest = input ∧
      value ≤ (IntegerType.unsigned 64).greatest ∧ trim rest = rest := by
  obtain ⟨middle, read, rfl⟩ := token_matched.mp run
  rw [nat, magnitude_leading] at read
  split at read
  · next digits =>
      cases read
      refine ⟨input.takeWhile isSpace ++ leadingDigits (trim input) ++
        (afterDigits (trim input)).takeWhile isSpace, ?_, ?_, digits.2, trim_trim _⟩
      · exact .digits (fun _ => List.mem_takeWhile_imp) digits.1 (fun _ => List.mem_takeWhile_imp)
          (fun _ => List.mem_takeWhile_imp)
      · have split : leadingDigits (trim input) ++ afterDigits (trim input) = trim input :=
          List.takeWhile_append_dropWhile
        rw [List.append_assoc, List.append_assoc, spaces_append_trim, split, spaces_append_trim]
  · contradiction

theorem natural_failed (other : ∀ char ∈ (trim input).head?, char.isDigit = false) :
    ∃ stop, natural input = .failed stop := by
  refine ⟨trim input, ?_⟩
  rw [natural, token_apply, nat, magnitude_leading, leading_digits_nil other, if_neg (by simp)]
  rfl

/-! Elements, and what stands behind them. -/

variable {value : Nat} {values : List Nat} {text elements : List Char}

theorem natural_slices : natural.Slices := token_slices (nat_slices _)

theorem natural_skips : natural.Skips := token_skips _

theorem no_digit {char : Char} (other : char.isDigit = false) (more : List Char) :
    ∀ first ∈ (char :: more).head?, first.isDigit = false := by
  rintro _ ⟨⟩
  exact other

/-- Elements that fit are read up to whatever is neither a digit nor a comma, spaces skipped. -/
theorem elements_read (written : ElementsText values elements)
    (fit : ∀ value ∈ values, value ≤ (IntegerType.unsigned 64).greatest)
    (ended : ∀ char ∈ place.head?, char.isDigit = false) (other : ',' ∉ (trim place).head?) :
    commaSeparated natural (elements ++ place) = .matched values (trim place) := by
  induction written with
  | @last value text element =>
      have fits := fit value List.mem_cons_self
      rcases natural_element element place ended with ⟨-, found⟩ | ⟨exceeds, -⟩
      · exact comma_last found (by rwa [trim_trim])
      · exact absurd fits (Nat.not_le_of_lt exceeds)
  | @next value values text following element others ih =>
      obtain ⟨fits, more⟩ := List.forall_mem_cons.mp fit
      rw [List.append_assoc, List.cons_append]
      rcases natural_element element (',' :: (following ++ place)) (no_digit rfl _) with
        ⟨-, found⟩ | ⟨exceeds, -⟩
      · rw [trim_other rfl] at found
        rw [comma_next natural_slices natural_skips found, ih more]
      · exact absurd fits (Nat.not_le_of_lt exceeds)

/-- What is read up to some place is written as elements that fit. By induction on the length, as what
follows a comma is a shorter list. -/
theorem elements_of_matched (run : commaSeparated natural input = .matched values rest) :
    (∃ elements, ElementsText values elements ∧ elements ++ rest = input) ∧
      (∀ value ∈ values, value ≤ (IntegerType.unsigned 64).greatest) ∧ trim rest = rest := by
  induction length : input.length using Nat.strongRecOn generalizing input values with
  | ind bound ih =>
      cases found : natural input with
      | failed stop =>
          have refused : commaSeparated natural input = .failed stop := separated_of_failed found
          cases refused.symm.trans run
      | matched first place =>
          obtain ⟨text, element, split, fits, trimmed⟩ := natural_element_of_matched found
          have single : ElementsText [first] text ∧
              ∀ value ∈ [first], value ≤ (IntegerType.unsigned 64).greatest :=
            ⟨.last element, List.forall_mem_singleton.mpr fits⟩
          by_cases comma : ',' ∈ place.head?
          · obtain ⟨more, rfl⟩ := List.head?_eq_some_iff.mp comma
            rw [comma_next natural_slices natural_skips found] at run
            split at run
            · next others last inner =>
                cases run
                have less : more.length < bound := by
                  rw [← length, ← split, List.length_append, List.length_cons]
                  omega
                obtain ⟨⟨following, written, rfl⟩, fit, ended⟩ := ih _ less inner rfl
                refine ⟨⟨text ++ ',' :: following, .next element written, ?_⟩,
                  List.forall_mem_cons.mpr ⟨fits, fit⟩, ended⟩
                rw [List.append_assoc, List.cons_append, split]
            · cases run
              exact ⟨⟨text, single.1, split⟩, single.2, trimmed⟩
          · have alone : commaSeparated natural input = .matched [first] place :=
              comma_last found (by rwa [trimmed])
            cases alone.symm.trans run
            exact ⟨⟨text, single.1, split⟩, single.2, trimmed⟩

/-! What cannot be closed. -/

/-- No closing bracket follows the elements at the start of this input, if there are any. -/
def Unclosed (input : List Char) : Prop :=
  ∀ values rest, commaSeparated natural input = .matched values rest → ']' ∉ rest.head?

theorem unclosed_of_failed (failed : ∃ stop, natural input = .failed stop) : Unclosed input := by
  intro values rest run
  obtain ⟨stop, failed⟩ := failed
  have refused : commaSeparated natural input = .failed stop := separated_of_failed failed
  cases refused.symm.trans run

theorem unclosed_last (element : ElementText value text)
    (ended : ∀ char ∈ place.head?, char.isDigit = false)
    (other : ',' ∉ (trim place).head?) (unclosed : ']' ∉ (trim place).head?) :
    Unclosed (text ++ place) := by
  rcases natural_element element place ended with ⟨-, found⟩ | ⟨-, failed⟩
  · intro values rest run
    have alone : commaSeparated natural (text ++ place) = .matched [value] (trim place) :=
      comma_last found (by rwa [trim_trim])
    cases alone.symm.trans run
    exact unclosed
  · exact unclosed_of_failed failed

theorem unclosed_next (element : ElementText value text) (behind : Unclosed more) :
    Unclosed (text ++ ',' :: more) := by
  rcases natural_element element (',' :: more) (no_digit rfl _) with ⟨-, found⟩ | ⟨-, failed⟩
  · intro values rest run
    rw [trim_other rfl] at found
    rw [comma_next natural_slices natural_skips found] at run
    split at run
    · next others last inner =>
        cases run
        exact behind _ _ inner
    · cases run
      simp
  · exact unclosed_of_failed failed

/-- The last element decides, as commas follow the others. -/
theorem unclosed_behind (written : ElementsText values elements)
    (last : ∀ value text, ElementText value text → Unclosed (text ++ place)) :
    Unclosed (elements ++ place) := by
  induction written with
  | last element => exact last _ _ element
  | next element others ih =>
      rw [List.append_assoc, List.cons_append]
      exact unclosed_next element ih

theorem unclosed_of_oversize (written : ElementsText values elements)
    (exceeds : ∃ value ∈ values, (IntegerType.unsigned 64).greatest < value)
    (ended : ∀ char ∈ place.head?, char.isDigit = false) : Unclosed (elements ++ place) := by
  induction written with
  | last element =>
      obtain ⟨found, member, greater⟩ := exceeds
      cases List.mem_singleton.mp member
      rcases natural_element element place ended with ⟨fits, -⟩ | ⟨-, failed⟩
      · exact absurd greater (Nat.not_lt_of_le fits)
      · exact unclosed_of_failed failed
  | @next value values text following element others ih =>
      rw [List.append_assoc, List.cons_append]
      by_cases fits : value ≤ (IntegerType.unsigned 64).greatest
      · apply unclosed_next element
        obtain ⟨found, member, greater⟩ := exceeds
        rcases List.mem_cons.mp member with rfl | later
        · exact absurd greater (Nat.not_lt_of_le fits)
        · exact ih ⟨found, later, greater⟩
      · rcases natural_element element (',' :: (following ++ place)) (no_digit rfl _) with
          ⟨again, -⟩ | ⟨-, failed⟩
        · exact absurd again fits
        · exact unclosed_of_failed failed

/-! Brackets around the elements. -/

theorem naturals_matched :
    naturals input = .matched values rest ↔
      ∃ more behind, trim input = '[' :: more ∧
        commaSeparated natural more = .matched values (']' :: behind) ∧ trim behind = rest := by
  have skips := comma_separated_skips natural_skips
  have opens : "[" = String.singleton '[' := rfl
  have closes : "]" = String.singleton ']' := rfl
  rw [naturals, bracketed, between_matched, opens, closes]
  simp only [symbol_matched]
  constructor
  · rintro ⟨-, middle, inner, -, ⟨-, more, start, rfl⟩, run, -, behind, closed, ended⟩
    rw [skips] at run
    rw [(elements_of_matched run).2.2] at closed
    exact ⟨more, behind, start, closed ▸ run, ended⟩
  · rintro ⟨more, behind, start, run, ended⟩
    refine ⟨_, _, _, _, ⟨rfl, more, start, rfl⟩, (skips more).trans run, rfl, behind, ?_, ended⟩
    exact trim_other rfl behind

theorem naturals_failed {gap : List Char} (front : IsGap gap) (unclosed : Unclosed more) :
    ∃ stop, naturals (gap ++ '[' :: more) = .failed stop := by
  cases run : naturals (gap ++ '[' :: more) with
  | failed stop => exact ⟨stop, rfl⟩
  | matched values rest =>
      obtain ⟨inner, behind, start, closed, -⟩ := naturals_matched.mp run
      rw [trim_append_of_spaces (trim_eq_nil.mpr front), trim_other rfl] at start
      cases start
      exact absurd rfl (unclosed _ _ closed)

theorem naturals_unopened (other : '[' ∉ (trim input).head?) :
    ∃ stop, naturals input = .failed stop := by
  cases run : naturals input with
  | failed stop => exact ⟨stop, rfl⟩
  | matched values rest =>
      obtain ⟨more, behind, start, -⟩ := naturals_matched.mp run
      rw [start] at other
      exact absurd rfl other

theorem naturals_iff :
    naturals input = .matched values rest ↔
      (∀ value ∈ values, value ≤ (IntegerType.unsigned 64).greatest) ∧
        (∀ char ∈ rest.head?, isSpace char = false) ∧
        ∃ text, ListText values text ∧ text ++ rest = input := by
  rw [naturals_matched]
  constructor
  · rintro ⟨more, behind, start, run, rfl⟩
    obtain ⟨⟨elements, written, split⟩, fit, -⟩ := elements_of_matched run
    have gap (text : List Char) : IsGap (text.takeWhile isSpace) :=
      fun _ => List.mem_takeWhile_imp
    refine ⟨fit, trim_visible behind, _, .brackets (gap input) written (gap behind), ?_⟩
    simp only [List.append_assoc, List.cons_append, spaces_append_trim, split]
    rw [← start, spaces_append_trim]
  · rintro ⟨fit, visible, text, written, rfl⟩
    cases written with
    | @brackets before elements after front inner back =>
        have closing : trim (']' :: (after ++ rest)) = ']' :: (after ++ rest) := trim_other rfl _
        have ended : ∀ char ∈ (']' :: (after ++ rest)).head?, char.isDigit = false :=
          no_digit rfl _
        have run := elements_read inner fit ended (by simp [closing])
        rw [closing] at run
        simp only [List.append_assoc, List.cons_append]
        refine ⟨_, _, ?_, run, ?_⟩
        · rw [trim_append_of_spaces (trim_eq_nil.mpr front)]
          exact trim_other rfl _
        · rw [trim_append_of_spaces (trim_eq_nil.mpr back), trim_of_visible visible]

/-! Printed lists. -/

theorem digits_element (value : Nat) : ElementText value (Nat.toDigits 10 value) := by
  have none : IsGap [] := List.forall_mem_nil _
  have written := ElementText.digits none Nat.toDigits_ne_nil (all_digits value) none
  rwa [decimal_value_digits, List.nil_append, List.append_nil] at written

theorem element_spaced {gap : List Char} (front : IsGap gap) (element : ElementText value text) :
    ElementText value (gap ++ text) := by
  cases element with
  | digits before some all back =>
      rw [← List.append_assoc, ← List.append_assoc]
      exact .digits (List.forall_mem_append.mpr ⟨front, before⟩) some all back

theorem elements_spaced {gap : List Char} (front : IsGap gap)
    (written : ElementsText values elements) : ElementsText values (gap ++ elements) := by
  cases written with
  | last element => exact .last (element_spaced front element)
  | next element others =>
      rw [← List.append_assoc]
      exact .next (element_spaced front element) others

theorem elements_printed (some : values ≠ []) :
    ElementsText values ([',', ' '].intercalate (values.map (Nat.toDigits 10))) := by
  induction values with
  | nil => exact absurd rfl some
  | cons value values ih =>
      cases values with
      | nil =>
          rw [List.map_singleton, List.intercalate_singleton]
          exact .last (digits_element value)
      | cons next values =>
          have space : IsGap [' '] := List.forall_mem_singleton.mpr rfl
          have others := elements_spaced space (ih (List.cons_ne_nil next values))
          rw [List.map_cons, List.map_cons, List.intercalate_cons_cons, List.append_assoc]
          exact .next (digits_element value) others

theorem printed_list (some : values ≠ []) : ListText values (listText values) := by
  have none : IsGap [] := List.forall_mem_nil _
  exact .brackets none (elements_printed some) none

theorem naturals_read_exactly_lists :
    (∀ input values rest, naturals input = .matched values rest ↔
      (∀ value ∈ values, value ≤ (IntegerType.unsigned 64).greatest) ∧
        (∀ char ∈ rest.head?, isSpace char = false) ∧
        ∃ text, ListText values text ∧ text ++ rest = input) ∧
    (∀ input, '[' ∉ (trim input).head? → ∃ stop, naturals input = .failed stop) ∧
    (∀ gap more, IsGap gap → (∀ char ∈ (trim more).head?, char.isDigit = false) →
      (∃ stop, naturals (gap ++ '[' :: more) = .failed stop) ∧
      ∀ values elements, ElementsText values elements →
        ∃ stop, naturals (gap ++ '[' :: (elements ++ ',' :: more)) = .failed stop) ∧
    (∀ gap values elements place, IsGap gap → ElementsText values elements →
      (∀ char ∈ place.head?, char.isDigit = false) → ',' ∉ (trim place).head? →
      ']' ∉ (trim place).head? →
      ∃ stop, naturals (gap ++ '[' :: (elements ++ place)) = .failed stop) ∧
    (∀ values text rest, ListText values text →
      (∃ value ∈ values, (IntegerType.unsigned 64).greatest < value) →
      ∃ stop, naturals (text ++ rest) = .failed stop) ∧
    ∀ values rest, values ≠ [] →
      (∀ value ∈ values, value ≤ (IntegerType.unsigned 64).greatest) →
      (∀ char ∈ rest.head?, isSpace char = false) →
      naturals (listText values ++ rest) = .matched values rest := by
  refine ⟨fun _ _ _ => naturals_iff, fun _ => naturals_unopened, ?_, ?_, ?_, ?_⟩
  · intro gap more front other
    have unclosed := unclosed_of_failed (natural_failed other)
    refine ⟨naturals_failed front unclosed, ?_⟩
    intro values elements written
    apply naturals_failed front
    exact unclosed_behind written fun _ _ element => unclosed_next element unclosed
  · intro gap values elements place front written ended comma closing
    apply naturals_failed front
    exact unclosed_behind written fun _ _ element => unclosed_last element ended comma closing
  · intro values text rest written exceeds
    cases written with
    | brackets front inner back =>
        rw [List.append_assoc, List.append_assoc, List.cons_append]
        exact naturals_failed front (unclosed_of_oversize inner exceeds (no_digit rfl _))
  · intro values rest some fit visible
    exact naturals_iff.mpr ⟨fit, visible, _, printed_list some, rfl⟩

/-- Zeros and spaces in front of a number do not matter. A number follows every comma, and a comma
stands between any two numbers. -/
theorem spaced_list_is_read :
    naturals " [ 007,8] x".toList = .matched [7, 8] ['x'] ∧
      (∃ stop, naturals "1]".toList = .failed stop) ∧
      (∃ stop, naturals "[ ]".toList = .failed stop) ∧
      (∃ stop, naturals "[1,,2]".toList = .failed stop) ∧
      (∃ stop, naturals "[1 2]".toList = .failed stop) ∧
      (∃ stop, naturals "[18446744073709551616]".toList = .failed stop) ∧
      naturals (listText [5, 8] ++ [';']) = .matched [5, 8] [';'] := by
  obtain ⟨exactly, unopened, commas, unclosed, oversize, printed⟩ := naturals_read_exactly_lists
  have none : IsGap [] := List.forall_mem_nil _
  have space : IsGap [' '] := List.forall_mem_singleton.mpr rfl
  have one : ElementsText [1] ['1'] := .last (digits_element 1)
  have zeros : ∀ char ∈ ['0', '0', '7'], char.isDigit = true := by simp
  have seven : ElementText 7 ([' '] ++ ['0', '0', '7'] ++ []) :=
    .digits space (List.cons_ne_nil _ _) zeros none
  have eight : ElementText 8 ['8'] := digits_element 8
  have great : ElementsText [18446744073709551616] "18446744073709551616".toList :=
    .last (digits_element 18446744073709551616)
  refine ⟨?_, ?_, ?_, ?_, ?_, ?_, ?_⟩
  · apply (exactly _ _ _).mpr
    exact ⟨by decide, trim_visible ['x'], _, .brackets space (.next seven (.last eight)) space,
      rfl⟩
  · exact unopened _ (by decide)
  · exact (commas [] [' ', ']'] none (no_digit rfl [])).1
  · exact (commas [] [',', '2', ']'] none (no_digit rfl _)).2 _ _ one
  · exact unclosed [] _ _ [' ', '2', ']'] none one (no_digit rfl _) (by decide) (by decide)
  · exact oversize _ _ [] (.brackets none great none) ⟨_, List.mem_singleton_self _, by decide⟩
  · exact printed _ _ (List.cons_ne_nil _ _) (by decide) (trim_visible [';'])

end Parser

end Descent
