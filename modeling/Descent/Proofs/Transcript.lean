import Descent.Proofs.Text.Lines
import Descent.Proofs.Writing
import Descent.Transcript

/-!
Transcripts as texts. Lines without a line feed in them are told apart again in the text that is written,
and the text of several transcripts in a row is that of each of them in turn.
-/

namespace Descent.Transcript

open Text

theorem text_to_list (lines : List String) :
    (text lines).toList = lines.flatMap fun line => line.toList ++ ['\n'] := by
  rw [text, String.toList_join, List.flatMap_map]
  simp [String.toList_append]

/-- A text gives its lines back if none of them holds a line feed. -/
theorem text_injective {lines others : List String}
    (plain : ∀ line ∈ lines, ∀ char ∈ line.toList, char ≠ '\n')
    (plainOthers : ∀ line ∈ others, ∀ char ∈ line.toList, char ≠ '\n')
    (same : text lines = text others) : lines = others := by
  have chars := congrArg String.toList same
  rw [text_to_list, text_to_list] at chars
  clear same
  induction lines generalizing others with
  | nil =>
      cases others with
      | nil => rfl
      | cons other others => simp at chars
  | cons line lines ih =>
      cases others with
      | nil => simp at chars
      | cons other others =>
          obtain ⟨here, following⟩ := List.forall_mem_cons.mp plain
          obtain ⟨hereOther, followingOthers⟩ := List.forall_mem_cons.mp plainOthers
          simp only [List.flatMap_cons, List.append_assoc, List.singleton_append] at chars
          obtain ⟨equal, rest⟩ := run_injective (· != '\n') (by simpa using here)
            (by simp) (by simpa using hereOther) (by simp) chars
          have more := (List.cons.inj rest).2
          rw [String.toList_inj.mp equal, ih following followingOthers more]

theorem text_has_lines {lines : List String} (plain : ∀ line ∈ lines, '\n' ∉ line.toList) :
    HasLines lines.length (text lines).toList := by
  rw [text_to_list]
  induction lines with
  | nil => exact ⟨ends_line_nil, rfl⟩
  | cons line lines ih =>
      obtain ⟨here, following⟩ := List.forall_mem_cons.mp plain
      rw [List.flatMap_cons, List.length_cons, Nat.add_comm]
      exact has_lines_append (has_lines_row here) (ih following)

theorem text_flat_map {α : Type} (rows : List α) (lines : α → List String) :
    text (rows.flatMap lines) = String.join (rows.map fun row => text (lines row)) := by
  induction rows with
  | nil => rfl
  | cons row rows ih =>
      rw [List.flatMap_cons, text, List.map_append, String.join_append, List.map_cons,
        String.join_cons, ← ih]
      rfl

theorem output_text_concat (transcripts : List Transcript) :
    (concat transcripts).outputText = String.join (transcripts.map outputText) :=
  text_flat_map transcripts output

theorem complaint_text_concat (transcripts : List Transcript) :
    (concat transcripts).complaintText = String.join (transcripts.map complaintText) :=
  text_flat_map transcripts complaints

end Descent.Transcript
