import Descent.Text.Blank
import Mathlib.Data.List.DropRight
import Mathlib.Data.List.TakeWhile

/-!
The lines of a text. Every text that is not empty starts with a line: up to the first line feed, less one
carriage return in front of it, or up to the end of the text. Main statement: the lines of a text are
those that it starts with again and again, so the lines of two texts in a row are the lines of the first
and then those of the second, if the first one ends with a line feed.
-/

namespace Descent.Text

/-- The text is empty or ends with a line feed, so that whatever follows it starts a line. -/
def EndsLine (text : List Char) : Prop := text = [] ∨ text.getLast? = some '\n'

/-- As many lines, each of them with a line feed at its end. -/
def HasLines (count : Nat) (text : List Char) : Prop := EndsLine text ∧ text.count '\n' = count

/-- A text, the line that it starts with, and what comes after the end of that line. -/
inductive FirstLine : List Char → List Char → List Char → Prop where
  | feed {line rest : List Char} (single : '\n' ∉ line) (bare : line.getLast? ≠ some '\r') :
      FirstLine (line ++ '\n' :: rest) line rest
  | returnFeed {line rest : List Char} (single : '\n' ∉ line) :
      FirstLine (line ++ '\r' :: '\n' :: rest) line rest
  /-- The last line needs no end. -/
  | last {line : List Char} (single : '\n' ∉ line) (visible : line ≠ []) : FirstLine line line []

/-- A text and all its lines. -/
inductive Lined : List Char → List (List Char) → Prop where
  | nil : Lined [] []
  | next {text line rest : List Char} {others : List (List Char)} (first : FirstLine text line rest)
      (following : Lined rest others) : Lined text (line :: others)

variable {text line rest : List Char} {rows others : List (List Char)}

theorem ends_line_nil : EndsLine [] := .inl rfl

theorem ends_line_append {front : List Char} (ended : EndsLine text) (start : EndsLine front) :
    EndsLine (front ++ text) := by
  rcases ended with rfl | last
  · rwa [List.append_nil]
  · right
    rw [List.getLast?_append, last, Option.some_or]

/-- What is left of such a text, at any place, is such a text. -/
theorem ends_line_suffix (suffix : rest <:+ text) (ended : EndsLine text) : EndsLine rest := by
  obtain ⟨front, rfl⟩ := suffix
  rcases ended with none | last
  · exact .inl (List.append_eq_nil_iff.mp none).2
  · cases rest with
    | nil => exact .inl rfl
    | cons char rest =>
        right
        rwa [List.getLast?_append_of_ne_nil _ (List.cons_ne_nil char rest)] at last

theorem has_lines_append {front : List Char} {count more : Nat} (first : HasLines count front)
    (second : HasLines more text) : HasLines (count + more) (front ++ text) := by
  refine ⟨ends_line_append second.1 first.1, ?_⟩
  rw [List.count_append, first.2, second.2]

theorem has_lines_row (plain : '\n' ∉ line) : HasLines 1 (line ++ ['\n']) := by
  constructor
  · right
    rw [List.getLast?_concat]
  · rw [List.count_append, List.count_eq_zero_of_not_mem plain]
    rfl

namespace FirstLine

theorem single (first : FirstLine text line rest) : '\n' ∉ line := by
  cases first with
  | feed single bare => exact single
  | returnFeed single => exact single
  | last single visible => exact single

theorem suffix (first : FirstLine text line rest) : rest <:+ text := by
  cases first with
  | feed single bare => exact ⟨line ++ ['\n'], by simp⟩
  | returnFeed single => exact ⟨line ++ ['\r', '\n'], by simp⟩
  | last single visible => exact List.nil_suffix

/-- A character in front of a text is the start of its first line, unless it ends a line itself. -/
theorem cons (first : FirstLine text line rest) {char : Char} (other : char ≠ '\n')
    (apart : char = '\r' → text.head? ≠ some '\n') :
    FirstLine (char :: text) (char :: line) rest := by
  have whole {line : List Char} (single : '\n' ∉ line) : '\n' ∉ char :: line := by
    simp [Ne.symm other, single]
  cases first with
  | feed single bare =>
      refine .feed (whole single) ?_
      cases line with
      | nil =>
          intro start
          exact apart (Option.some.inj start) rfl
      | cons next line => rwa [List.getLast?_cons_cons]
  | returnFeed single => exact .returnFeed (whole single)
  | last single visible => exact .last (whole single) (List.cons_ne_nil char _)

/-- A text that ends with a line feed is still read line by line when something follows it. -/
theorem append (first : FirstLine text line rest) (ended : EndsLine text) (back : List Char) :
    FirstLine (text ++ back) line (rest ++ back) := by
  cases first with
  | feed single bare =>
      rw [List.append_assoc, List.cons_append]
      exact .feed single bare
  | returnFeed single =>
      rw [List.append_assoc, List.cons_append, List.cons_append]
      exact .returnFeed single
  | last single visible =>
      rcases ended with none | feed
      · exact absurd none visible
      · exact absurd (List.mem_of_getLast? feed) single

end FirstLine

theorem lines_char {char : Char} (other : char ≠ '\n')
    (apart : char = '\r' → rest.head? ≠ some '\n') (found : lines rest = line :: others) :
    lines (char :: rest) = (char :: line) :: others := by
  rw [lines, found]
  · exact other
  · rintro following rfl rfl
    exact apart rfl rfl

/-- A line goes on to the left, up to a line feed. -/
theorem lines_before {ending : List Char} (single : '\n' ∉ line)
    (apart : line.getLast? = some '\r' → ending.head? ≠ some '\n')
    (ended : lines ending = [] :: others) : lines (line ++ ending) = line :: others := by
  induction line with
  | nil => exact ended
  | cons char line ih =>
      have other : char ≠ '\n' := (List.ne_of_not_mem_cons single).symm
      have behind : '\n' ∉ line := List.not_mem_of_not_mem_cons single
      cases line with
      | nil =>
          apply lines_char other _ ended
          rintro rfl
          exact apart rfl
      | cons next line =>
          apply lines_char other
          · rintro - start
            exact behind (List.mem_of_head? start)
          · apply ih behind
            rwa [List.getLast?_cons_cons] at apart

theorem lines_single (single : '\n' ∉ line) (visible : line ≠ []) : lines line = [line] := by
  induction line with
  | nil => contradiction
  | cons char line ih =>
      have other : char ≠ '\n' := (List.ne_of_not_mem_cons single).symm
      have behind : '\n' ∉ line := List.not_mem_of_not_mem_cons single
      cases line with
      | nil =>
          rw [lines, lines]
          · exact other
          · rintro rest - start
            contradiction
      | cons next line =>
          apply lines_char other
          · rintro - start
            exact behind (List.mem_of_head? start)
          · exact ih behind (List.cons_ne_nil next line)

theorem FirstLine.lines_eq (first : FirstLine text line rest) : lines text = line :: lines rest := by
  cases first with
  | feed single bare => exact lines_before single (fun ends => absurd ends bare) rfl
  | returnFeed single => exact lines_before single (fun _ => by simp) rfl
  | last single visible => exact lines_single single visible

theorem Lined.lines_eq (lined : Lined text rows) : rows = lines text := by
  induction lined with
  | nil => rfl
  | next first following ih => rw [first.lines_eq, ih]

theorem lined_lines (text : List Char) : Lined text (lines text) := by
  fun_induction lines text with
  | case1 => exact .nil
  | case2 rest ih =>
      have empty : FirstLine ([] ++ '\n' :: rest) [] rest := .feed List.not_mem_nil (by simp)
      exact .next empty ih
  | case3 rest ih =>
      have empty : FirstLine ([] ++ '\r' :: '\n' :: rest) [] rest := .returnFeed List.not_mem_nil
      exact .next empty ih
  | case4 char rest other apart none ih =>
      rw [none] at ih
      cases ih
      exact .next (.last (by simpa using Ne.symm other) (List.cons_ne_nil char [])) .nil
  | case5 char rest other apart line others found ih =>
      rw [found] at ih
      cases ih with
      | next first following =>
          refine .next (first.cons other ?_) following
          intro returns start
          obtain ⟨more, rfl⟩ := List.head?_eq_some_iff.mp start
          exact apart more returns rfl

theorem lined_iff : Lined text rows ↔ rows = lines text := by
  constructor
  · exact Lined.lines_eq
  · rintro rfl
    exact lined_lines text

theorem Lined.append {front : List Char} (lined : Lined front rows) (ended : EndsLine front)
    (following : Lined text others) : Lined (front ++ text) (rows ++ others) := by
  induction lined with
  | nil => exact following
  | next first behind ih =>
      exact .next (first.append ended text) (ih (ends_line_suffix first.suffix ended))

theorem lines_append {front : List Char} (ended : EndsLine front) (text : List Char) :
    lines (front ++ text) = lines front ++ lines text :=
  ((lined_lines front).append ended (lined_lines text)).lines_eq.symm

/-! A line is blank if nothing is left of it without the blank characters at both of its ends. -/

def strip (text : List Char) : List Char := (text.dropWhile isBlank).rdropWhile isBlank

theorem strip_eq_nil : strip text = [] ↔ ∀ char ∈ text, isBlank char = true := by
  rw [strip, List.rdropWhile_eq_nil_iff]
  constructor
  · intro blank
    cases left : text.dropWhile isBlank with
    | nil => exact List.dropWhile_eq_nil_iff.mp left
    | cons char rest =>
        have starts := List.head?_dropWhile_not isBlank text
        rw [left] at starts blank
        exact absurd (blank char List.mem_cons_self) (Bool.eq_false_iff.mp starts)
  · intro blank char member
    exact blank char ((List.dropWhile_sublist isBlank).mem member)

end Descent.Text
