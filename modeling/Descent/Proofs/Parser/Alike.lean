import Descent.Proofs.Parser.Agreement
import Descent.Proofs.Parser.Completing
import Mathlib.Data.List.Forall2

/-!
Parsers that are alike: they fail at the same places, and match up to the same places if spaces
there do not count, with values that stand in a relation. Parsers that skip the spaces in front
stay alike where only these spaces differ, so rows and repetitions of them are alike too.
-/

namespace Descent

open Text

inductive Outcome.Alike {α β : Type} (related : α → β → Prop) : Outcome α → Outcome β → Prop where
  | failed (stop : List Char) : Alike related (.failed stop) (.failed stop)
  | matched {value : α} {other : β} {rest last : List Char} (values : related value other)
      (place : trim rest = trim last) : Alike related (.matched value rest) (.matched other last)

namespace Outcome.Alike

variable {α β γ δ : Type} {related : α → β → Prop}

theorem refl {same : α → α → Prop} (reflexive : ∀ value, same value value) (outcome : Outcome α) :
    outcome.Alike same outcome := by
  cases outcome with
  | failed stop => exact .failed stop
  | matched value rest => exact .matched (reflexive value) rfl

theorem symm {first : Outcome α} {second : Outcome β} (alike : first.Alike related second) :
    second.Alike (fun value other => related other value) first := by
  cases alike with
  | failed stop => exact .failed stop
  | matched values place => exact .matched values place.symm

theorem trans {connected : β → γ → Prop} {first : Outcome α} {second : Outcome β}
    {third : Outcome γ} (alike : first.Alike related second)
    (others : second.Alike connected third) :
    first.Alike (fun value other => ∃ between, related value between ∧ connected between other)
      third := by
  cases alike with
  | failed stop =>
      cases others
      exact .failed stop
  | matched values place =>
      cases others with
      | matched further reached => exact .matched ⟨_, values, further⟩ (place.trans reached)

theorem imp {weaker : α → β → Prop} {first : Outcome α} {second : Outcome β}
    (alike : first.Alike related second)
    (weaken : ∀ value other, related value other → weaker value other) :
    first.Alike weaker second := by
  cases alike with
  | failed stop => exact .failed stop
  | matched values place => exact .matched (weaken _ _ values) place

/-- Alike outcomes stay alike if what follows them is alike wherever both have matched. -/
theorem and_then {connected : γ → δ → Prop} {first : Outcome α} {second : Outcome β}
    {next : α → List Char → Outcome γ} {next' : β → List Char → Outcome δ}
    (alike : first.Alike related second)
    (following : ∀ value rest other last, first = .matched value rest →
      second = .matched other last → related value other → trim rest = trim last →
      (next value rest).Alike connected (next' other last)) :
    (first.andThen next).Alike connected (second.andThen next') := by
  cases alike with
  | failed stop => exact .failed stop
  | matched values place => exact following _ _ _ _ rfl rfl values place

theorem or_else {first : Outcome α} {second : Outcome β} {fallback : Unit → Outcome α}
    {fallback' : Unit → Outcome β} (alike : first.Alike related second)
    (others : (fallback ()).Alike related (fallback' ())) :
    (first.orElse fallback).Alike related (second.orElse fallback') := by
  cases alike with
  | failed stop => exact others
  | matched values place => exact .matched values place

end Outcome.Alike

namespace Parser

variable {α α' β β' : Type} {related : α → α' → Prop} {connected : β → β' → Prop} {bound : Nat}

/-- The parsers are alike on inputs that differ in the spaces in front only, up to a length. -/
def AlikeUpTo (bound : Nat) (related : α → α' → Prop) (first : Parser α) (second : Parser α') :
    Prop :=
  ∀ input other, trim input = trim other → input.length ≤ bound →
    (first input).Alike related (second other)

theorem token_congr (parser : Parser α) {input other : List Char}
    (same : trim input = trim other) : token parser input = token parser other := by
  rw [token_apply, token_apply, same]

theorem token_alike (parser : Parser α) (bound : Nat) :
    AlikeUpTo bound Eq (token parser) (token parser) := by
  intro input other same short
  rw [token_congr parser same]
  exact .refl (fun _ => rfl) _

theorem spaced_alike {first : Parser α} {second : Parser α'}
    (alike : ∀ input : List Char, input.length ≤ bound →
      (first input).Alike related (second input)) :
    AlikeUpTo bound related (spaced first) (spaced second) := by
  intro input other same short
  rw [spaced_apply, spaced_apply, same]
  have shorter := (trim_suffix input).length_le
  rw [same] at shorter
  exact alike (trim other) (Nat.le_trans shorter short)

theorem pair_alike {first : Parser α} {first' : Parser α'} {second : Parser β}
    {second' : Parser β'} (slices : first.Slices) (opened : AlikeUpTo bound related first first')
    (closed : AlikeUpTo bound connected second second') :
    AlikeUpTo bound (fun left right => related left.1 right.1 ∧ connected left.2 right.2)
      (Parser.sequence (first, second)) (Parser.sequence (first', second')) := by
  intro input other same short
  rw [pair_apply, pair_apply]
  apply (opened input other same short).and_then
  intro value rest value' rest' run _ values place
  have shorter := (slices.matched_suffix run).length_le
  apply (closed rest rest' place (by omega)).and_then
  intro further last further' last' _ _ continued reached
  exact .matched ⟨values, continued⟩ reached

/-- Both repetitions stop in the same round: where the parsers consume something, a repetition
ends with a failure only. -/
theorem many_alike {first : Parser α} {second : Parser α'} (consumes : first.Consumes)
    (consumes' : second.Consumes) (alike : AlikeUpTo bound related first second) :
    AlikeUpTo bound (List.Forall₂ related) (many first) (many second) := by
  intro input other same short
  simp only [many]
  fun_induction advance first input generalizing other with
  | case1 input value rest run shorter following ih =>
      have begun := alike input other same short
      rw [run] at begun
      generalize run' : second other = outcome at begun
      cases begun with
      | @matched _ value' _ rest' values place =>
          have shorter' := consumes' other value' rest' run'
          have more := ih rest' place (by omega)
          generalize reached : advance second rest' = left at more
          have next : advance second other = (value' :: left.1, left.2) := by
            rw [advance, run']
            simp only [shorter', if_true, reached]
          rw [next]
          cases more with
          | matched others place => exact .matched (.cons values others) place
  | case2 input value rest run stuck => exact absurd (consumes input value rest run) stuck
  | case3 input stop run =>
      have begun := alike input other same short
      rw [run] at begun
      generalize run' : second other = outcome at begun
      cases begun
      have none : advance second other = ([], other) := by rw [advance, run']
      rw [none]
      exact .matched .nil same

/-- Complete parses do not see the spaces that are left over. -/
theorem complete_alike {first : Parser α} {second : Parser α'} {input : List Char}
    (alike : (first input).Alike related (second input)) :
    (∃ error, first.complete input = .error error ∧ second.complete input = .error error) ∨
      ∃ value other, first.complete input = .ok value ∧ second.complete input = .ok other ∧
        related value other := by
  generalize run : first input = outcome, run' : second input = outcome' at alike
  cases alike with
  | failed stop =>
      left
      exact ⟨_, complete_of_failed run, complete_of_failed run'⟩
  | @matched value value' rest rest' values place =>
      rw [complete_of_matched run, complete_of_matched run', ← place]
      by_cases blank : trim rest = []
      · right
        rw [if_pos blank, if_pos blank]
        exact ⟨value, value', rfl, rfl, values⟩
      · left
        rw [if_neg blank, if_neg blank]
        exact ⟨_, rfl, rfl⟩

end Parser

end Descent
