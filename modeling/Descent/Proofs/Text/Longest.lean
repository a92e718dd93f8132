import Mathlib.Data.List.Infix
import Mathlib.Data.List.TakeWhile

/-!
The longest front of a text that has a property. A text has at most one. For the characters that pass
a test, and for such characters behind a first one that passes another test, it is cut off where the
first character comes that does not pass.
-/

namespace Descent.Text

/-- A front of the text that is admitted, no admitted front being longer, and the text behind it. -/
structure LongestFront (admits : String → Prop) (text : List Char) (front : String)
    (rest : List Char) : Prop where
  whole : front.toList ++ rest = text
  admitted : admits front
  longest : ∀ other : String, admits other → other.toList <+: text →
    other.toList.length ≤ front.toList.length

/-- Characters that pass a test. -/
def AllPass (test : Char → Bool) (text : String) : Prop := ∀ char ∈ text.toList, test char = true

/-- A first character that passes one test, and others that pass another one. -/
def IsRun (starts continues : Char → Bool) (text : String) : Prop :=
  ∃ first others, text.toList = first :: others ∧ starts first = true ∧
    ∀ char ∈ others, continues char = true

variable {admits : String → Prop} {test starts continues : Char → Bool} {text rest : List Char}
  {front : String}

theorem LongestFront.unique {other : String} {last : List Char}
    (first : LongestFront admits text front rest) (second : LongestFront admits text other last) :
    front = other ∧ rest = last := by
  have inside : front.toList <+: text := ⟨rest, first.whole⟩
  have insideOther : other.toList <+: text := ⟨last, second.whole⟩
  have least := first.longest other second.admitted insideOther
  have greatest := second.longest front first.admitted inside
  have same : front.toList = other.toList :=
    (List.prefix_of_prefix_length_le inside insideOther greatest).eq_of_length
      (Nat.le_antisymm greatest least)
  have texts := first.whole.trans second.whole.symm
  rw [same] at texts
  exact ⟨String.toList_inj.mp same, List.append_cancel_left texts⟩

/-- A front of which all characters pass lies within what is taken while they pass. -/
theorem length_le_take_while {run : List Char} (passes : ∀ char ∈ run, test char = true)
    (inside : run <+: text) : run.length ≤ (text.takeWhile test).length := by
  obtain ⟨rest, rfl⟩ := inside
  rw [List.takeWhile_append_of_pos passes, List.length_append]
  exact Nat.le_add_right _ _

theorem longest_pass (test : Char → Bool) (text : List Char) :
    LongestFront (AllPass test) text (String.ofList (text.takeWhile test))
      (text.dropWhile test) where
  whole := by rw [String.toList_ofList, List.takeWhile_append_dropWhile]
  admitted := by
    intro char member
    rw [String.toList_ofList] at member
    exact List.mem_takeWhile_imp member
  longest := by
    intro other passes inside
    rw [String.toList_ofList]
    exact length_le_take_while passes inside

theorem longest_run {first : Char} (begins : starts first = true) (others : List Char) :
    LongestFront (IsRun starts continues) (first :: others)
      (String.ofList (first :: others.takeWhile continues)) (others.dropWhile continues) where
  whole := by rw [String.toList_ofList, List.cons_append, List.takeWhile_append_dropWhile]
  admitted := by
    refine ⟨first, others.takeWhile continues, String.toList_ofList, begins, ?_⟩
    intro char member
    exact List.mem_takeWhile_imp member
  longest := by
    rintro other ⟨char, more, spelled, -, passes⟩ inside
    rw [spelled] at inside
    have behind : more <+: others := (List.cons_prefix_cons.mp inside).2
    have shorter := length_le_take_while passes behind
    rw [spelled, String.toList_ofList, List.length_cons, List.length_cons]
    omega

/-- A text that a run is a front of starts as runs do. -/
theorem LongestFront.head_starts (run : LongestFront (IsRun starts continues) text front rest) :
    ∃ first ∈ text.head?, starts first = true := by
  obtain ⟨first, others, spelled, begins, -⟩ := run.admitted
  have whole := run.whole
  rw [spelled] at whole
  exact ⟨first, by rw [← whole]; rfl, begins⟩

end Descent.Text
