import Descent.Arithmetic.Session
import Descent.Proofs.Parser.Integers
import Descent.Proofs.Transcript

/-!
A session, line by line. What a line adds to the two outputs depends on this line alone, and it is a value
or a report, with the number of lines that goes with it. Main statement: both outputs are made up of what
the lines of the input add, one after the other, so a session on two inputs in a row writes what two
sessions write, and none of the lines is lost.
-/

namespace Descent.Arithmetic.Session

open Text Transcript

/-- What a line adds to the output, and what it adds to the error output. -/
inductive Adds (calculator : Calculator) (line : List Char) : String → String → Prop where
  | nothing (blank : strip line = []) : Adds calculator line "" ""
  | value {value : Int} {output : String} (visible : strip line ≠ [])
      (found : calculator.evaluate line = .ok value) (told : output = toString value ++ "\n")
      (count : HasLines 1 output.toList) : Adds calculator line output ""
  | fault {cause : Fault} {complaint : String} (visible : strip line ≠ [])
      (found : calculator.evaluate line = .error (.fault cause))
      (told : complaint = "error: " ++ cause.message ++ "\n")
      (count : HasLines 1 complaint.toList) : Adds calculator line "" complaint
  | malformed {error : SyntaxError} {complaint : String} (visible : strip line ≠ [])
      (found : calculator.evaluate line = .error (.malformed error))
      (told : complaint = "error: " ++ error.message ++ "\n" ++ "  " ++ String.ofList line ++ "\n" ++
        "  " ++ spaces error.offset ++ "^" ++ "\n")
      (count : HasLines 3 complaint.toList) : Adds calculator line "" complaint

variable {calculator : Calculator} {line : List Char}

theorem digits_plain (value : Nat) : '\n' ∉ Nat.toDigits 10 value := by
  intro member
  have digit := all_digits value '\n' member
  contradiction

theorem value_plain (value : Int) : '\n' ∉ (toString value).toList := by
  cases value with
  | ofNat number =>
      have text : (toString (Int.ofNat number)).toList = Nat.toDigits 10 number :=
        natural_text number
      rw [text]
      exact digits_plain number
  | negSucc number =>
      rw [negative_text]
      exact List.not_mem_cons_of_ne_of_not_mem (by decide) (digits_plain (number + 1))

theorem append_plain {first second : String} (plain : '\n' ∉ first.toList)
    (following : '\n' ∉ second.toList) : '\n' ∉ (first ++ second).toList := by
  rw [String.toList_append, List.mem_append, not_or]
  exact ⟨plain, following⟩

theorem message_plain (error : Calculator.Error) : '\n' ∉ error.message.toList := by
  cases error with
  | malformed error =>
      have digits : '\n' ∉ (toString error.offset).toList := by
        rw [natural_text]
        exact digits_plain error.offset
      exact append_plain (by simp) digits
  | fault cause => cases cause <;> simp [Calculator.Error.message, Fault.message]

theorem report_plain (single : '\n' ∉ line) (error : Calculator.Error) :
    ∀ row ∈ report line error, '\n' ∉ row.toList := by
  have told : '\n' ∉ ("error: " ++ error.message).toList :=
    append_plain (by simp) (message_plain error)
  cases error with
  | malformed error =>
      have copied : '\n' ∉ ("  " ++ String.ofList line).toList := by simp [single]
      have caret : '\n' ∉ ("  " ++ spaces error.offset ++ "^").toList := by simp [spaces]
      simp only [report, List.forall_mem_cons]
      exact ⟨told, copied, caret, List.forall_mem_nil _⟩
  | fault cause => exact List.forall_mem_singleton.mpr told

theorem all_blank_iff : line.all isBlank = true ↔ strip line = [] := by
  rw [List.all_eq_true, strip_eq_nil]

/-- The answer to a line is what it adds. -/
theorem adds_answer (calculator : Calculator) (single : '\n' ∉ line) :
    Adds calculator line (answer calculator line).outputText
      (answer calculator line).complaintText := by
  unfold answer
  by_cases blank : strip line = []
  · rw [if_pos (all_blank_iff.mpr blank)]
    exact .nothing blank
  · rw [if_neg (fun all => blank (all_blank_iff.mp all))]
    cases found : calculator.evaluate line with
    | ok value =>
        have plain : ∀ row ∈ [toString value], '\n' ∉ row.toList :=
          List.forall_mem_singleton.mpr (value_plain value)
        apply Adds.value blank found _ (text_has_lines plain)
        simp [text, String.join_cons]
    | error error =>
        have counted := text_has_lines (report_plain single error)
        cases error with
        | malformed error =>
            apply Adds.malformed blank found _ counted
            simp only [text, report, List.map_cons, List.map_nil, String.join_cons, String.join_nil,
              String.append_assoc, String.append_empty]
        | fault cause =>
            apply Adds.fault blank found _ counted
            simp [text, report, String.join_cons]

theorem adds_answers (calculator : Calculator) {input : List Char} {rows : List (List Char)}
    (lined : Lined input rows) :
    List.Forall₂ (fun line added => Adds calculator line added.1 added.2) rows
      (rows.map fun line =>
        ((answer calculator line).outputText, (answer calculator line).complaintText)) := by
  induction lined with
  | nil => exact .nil
  | next first following ih => exact .cons (adds_answer calculator first.single) ih

theorem output_text_run (calculator : Calculator) (input : List Char) :
    (run calculator input).outputText =
      String.join ((lines input).map fun line => (answer calculator line).outputText) := by
  rw [run, output_text_concat, List.map_map]
  rfl

theorem complaint_text_run (calculator : Calculator) (input : List Char) :
    (run calculator input).complaintText =
      String.join ((lines input).map fun line => (answer calculator line).complaintText) := by
  rw [run, complaint_text_concat, List.map_map]
  rfl

theorem session_answers_every_line (calculator : Calculator) :
    (∀ front back, EndsLine front →
      (run calculator (front ++ back)).outputText =
        (run calculator front).outputText ++ (run calculator back).outputText ∧
      (run calculator (front ++ back)).complaintText =
        (run calculator front).complaintText ++ (run calculator back).complaintText) ∧
    ∀ input, (∃ rows, Lined input rows) ∧ ∀ rows, Lined input rows →
      ∃ added, List.Forall₂ (fun line added => Adds calculator line added.1 added.2) rows added ∧
        (run calculator input).outputText = String.join (added.map Prod.fst) ∧
        (run calculator input).complaintText = String.join (added.map Prod.snd) := by
  constructor
  · intro front back ended
    simp only [output_text_run, complaint_text_run, lines_append ended, List.map_append,
      String.join_append, and_self]
  · intro input
    refine ⟨⟨_, lined_lines input⟩, ?_⟩
    intro rows lined
    refine ⟨_, adds_answers calculator lined, ?_, ?_⟩
    · rw [output_text_run, ← lined.lines_eq, List.map_map]
      rfl
    · rw [complaint_text_run, ← lined.lines_eq, List.map_map]
      rfl

/-- A line with a carriage return and a line of blank characters come first, and then a syntax error and
a division by zero, without a line feed behind it. -/
theorem session_goes_on_after_error :
    EndsLine "7-2-1\r\n\u00a0\t\n".toList ∧
      (run ⟨.left⟩ ("7-2-1\r\n\u00a0\t\n".toList ++ "2*(\n9/0".toList)).outputText = "4\n" ∧
      (run ⟨.left⟩ ("7-2-1\r\n\u00a0\t\n".toList ++ "2*(\n9/0".toList)).complaintText =
        "error: unexpected input at byte offset 1\n  2*(\n   ^\nerror: division by zero\n" ∧
      Lined "2*(\n9/0".toList ["2*(".toList, "9/0".toList] ∧
      ∃ added, List.Forall₂ (fun line added => Adds ⟨.left⟩ line added.1 added.2)
          ["2*(".toList, "9/0".toList] added ∧
        String.join (added.map Prod.fst) = "" ∧
        String.join (added.map Prod.snd) =
          "error: unexpected input at byte offset 1\n  2*(\n   ^\nerror: division by zero\n" := by
  obtain ⟨appended, answered⟩ := session_answers_every_line ⟨.left⟩
  have ended : EndsLine "7-2-1\r\n\u00a0\t\n".toList := .inr (by decide)
  have lined : Lined "2*(\n9/0".toList ["2*(".toList, "9/0".toList] := lined_iff.mpr (by decide)
  have value : (run ⟨.left⟩ "7-2-1\r\n\u00a0\t\n".toList).outputText = "4\n" := by decide +kernel
  have content : (run ⟨.left⟩ "7-2-1\r\n\u00a0\t\n".toList).complaintText = "" := by
    decide +kernel
  have silence : (run ⟨.left⟩ "2*(\n9/0".toList).outputText = "" := by decide +kernel
  have complaints : (run ⟨.left⟩ "2*(\n9/0".toList).complaintText =
      "error: unexpected input at byte offset 1\n  2*(\n   ^\nerror: division by zero\n" := by
    decide +kernel
  obtain ⟨output, complaint⟩ := appended _ "2*(\n9/0".toList ended
  obtain ⟨added, all, first, second⟩ := (answered _).2 _ lined
  refine ⟨ended, ?_, ?_, lined, added, all, ?_, ?_⟩
  · rw [output, value, silence]
    rfl
  · rw [complaint, content, complaints]
    rfl
  · rw [← first, silence]
  · rw [← second, complaints]

end Descent.Arithmetic.Session
