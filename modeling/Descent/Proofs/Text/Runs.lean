import Descent.Proofs.Parser.Scanning
import Mathlib.Data.List.DropRight

/-!
Runs of digits in a text. Every run lies within one that no digit touches, and its value is at most
the value of that one, so a bound on the longest runs is a bound on all of them.
-/

namespace Descent.Text

/-- Digits in a row, with no digit directly before or behind them. -/
def IsDigitRun (text run : List Char) : Prop :=
  (∀ char ∈ run, char.isDigit = true) ∧
    ∃ front back, text = front ++ run ++ back ∧
      (∀ char ∈ front.getLast?, char.isDigit = false) ∧
      ∀ char ∈ back.head?, char.isDigit = false

theorem foldl_digits_mono (digits : List Char) {value other : Nat} (less : value ≤ other) :
    digits.foldl (fun value digit => value * 10 + digitValue digit) value ≤
      digits.foldl (fun value digit => value * 10 + digitValue digit) other := by
  induction digits generalizing value other with
  | nil => exact less
  | cons digit digits ih =>
      have step : value * 10 + digitValue digit ≤ other * 10 + digitValue digit := by omega
      exact ih step

/-- More digits on either side do not make a value smaller. -/
theorem decimal_value_within {run text : List Char} (inside : run <:+: text) :
    decimalValue run ≤ decimalValue text := by
  obtain ⟨front, back, rfl⟩ := inside
  simp only [decimalValue, List.foldl_append]
  have behind := Parser.le_foldl_digits back
  exact (foldl_digits_mono run (Nat.zero_le _)).trans (behind _)

/-- A run can be extended on both sides until no digit touches it. -/
theorem digit_run_around {run text : List Char} (digits : ∀ char ∈ run, char.isDigit = true)
    (inside : run <:+: text) : ∃ longer, IsDigitRun text longer ∧ run <:+: longer := by
  obtain ⟨front, back, rfl⟩ := inside
  refine ⟨front.rtakeWhile Char.isDigit ++ run ++ back.takeWhile Char.isDigit,
    ⟨?_, front.rdropWhile Char.isDigit, back.dropWhile Char.isDigit, ?_, ?_, ?_⟩, _, _, rfl⟩
  · simp only [List.forall_mem_append]
    exact ⟨⟨fun _ => List.mem_rtakeWhile_imp, digits⟩, fun _ => List.mem_takeWhile_imp⟩
  · have left := List.rdropWhile_append_rtakeWhile (p := Char.isDigit) (l := front)
    have right := List.takeWhile_append_dropWhile (p := Char.isDigit) (l := back)
    conv_lhs => rw [← left, ← right]
    simp only [List.append_assoc]
  · intro char last
    obtain ⟨visible, rfl⟩ := List.mem_getLast?_eq_getLast last
    simpa using List.rdropWhile_last_not Char.isDigit front visible
  · intro char first
    have stops := List.head?_dropWhile_not Char.isDigit back
    rw [Option.mem_def.mp first] at stops
    exact stops

/-- A bound on the runs that no digit touches holds for all runs. -/
theorem run_bounded {text : List Char} {bound : Nat}
    (bounded : ∀ run, IsDigitRun text run → decimalValue run ≤ bound) {run : List Char}
    (digits : ∀ char ∈ run, char.isDigit = true) (inside : run <:+: text) :
    decimalValue run ≤ bound := by
  obtain ⟨longer, longest, covered⟩ := digit_run_around digits inside
  exact (decimal_value_within covered).trans (bounded longer longest)

end Descent.Text
