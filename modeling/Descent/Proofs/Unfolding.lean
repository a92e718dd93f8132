import Descent.Proofs.Body

/-!
The rules of a grammar as the limit of its approximations. A grammar is guarded when each rule
has a rank, and a production enters at the same place only rules of a lower rank; all other rules
it enters after it has consumed something. On an input of a given length, the approximations of a
guarded grammar stop changing at a depth that grows with that length, and the rules solve the
equations of their productions.
-/

namespace Descent.Grammar

open Descent.Parser

variable {ι α : Type}

structure Guarded (grammar : Grammar ι α) (rank : ι → Nat) : Prop where
  rank_lt (rule : ι) : rank rule < grammar.height
  slices (rules : ι → Parser α) (slices : ∀ rule, (rules rule).Slices) (rule : ι) :
    (grammar.productions rules rule).Slices
  agree (rules others : ι → Parser α) (slices : ∀ rule, (rules rule).Slices) (bound : Nat)
    (rule : ι)
    (below : ∀ other shorter, shorter < bound → AgreeUpTo shorter (rules other) (others other))
    (beside : ∀ other, rank other < rank rule → AgreeUpTo bound (rules other) (others other)) :
    AgreeUpTo bound (grammar.productions rules rule) (grammar.productions others rule)

/-- The productions of the grammar written out as bodies of rules, which call at the place where
they start only rules of a lower rank. -/
structure WrittenAs (grammar : Grammar ι α) (bodies : ι → Body ι α α) (rank : ι → Nat) : Prop where
  rank_lt (rule : ι) : rank rule < grammar.height
  run (rules : ι → Parser α) (rule : ι) :
    (bodies rule).run rules = grammar.productions rules rule
  descends (rules : ι → Parser α) (slices : ∀ rule, (rules rule).Slices) (rule : ι) :
    (bodies rule).Descends (fun other => rank other < rank rule) rules

theorem WrittenAs.guarded {grammar : Grammar ι α} {bodies : ι → Body ι α α} {rank : ι → Nat}
    (written : grammar.WrittenAs bodies rank) : grammar.Guarded rank where
  rank_lt := written.rank_lt
  slices rules slices rule := by
    rw [← written.run]
    exact Body.run_slices slices (bodies rule)
  agree rules others slices bound rule below beside := by
    intro input short
    have descends := written.descends rules slices rule
    rw [← written.run, ← written.run]
    apply Body.run_congr
    intro entered called
    have inside := (Body.calls_suffix slices (bodies rule) input entered called).length_le
    rcases descends input entered called with shorter | lower
    · exact below entered.1 entered.2.length (by omega) entered.2 (Nat.le_refl _)
    · exact beside entered.1 lower entered.2 (by omega)

/-- What holds of refusal, and of the productions over rules of which it holds, holds of the
rules. -/
theorem parser_induction (grammar : Grammar ι α) {motive : ι → List Char → Outcome α → Prop}
    (refused : ∀ rule input, motive rule input (.failed input))
    (step : ∀ rules : ι → Parser α, (∀ rule input, motive rule input (rules rule input)) →
      ∀ rule input, motive rule input (grammar.productions rules rule input))
    (rule : ι) (input : List Char) : motive rule input (grammar.parser rule input) := by
  have approximated (depth : Nat) :
      ∀ rule input, motive rule input (grammar.approximate depth rule input) := by
    induction depth with
    | zero => exact refused
    | succ depth ih => exact step _ ih
  exact approximated _ rule input

variable {grammar : Grammar ι α} {rank : ι → Nat}

theorem approximate_slices (guarded : grammar.Guarded rank) (depth : Nat) (rule : ι) :
    (grammar.approximate depth rule).Slices := by
  induction depth generalizing rule with
  | zero => exact fail_slices
  | succ depth ih => exact guarded.slices _ ih rule

theorem parser_slices (guarded : grammar.Guarded rank) (rule : ι) :
    (grammar.parser rule).Slices := fun input => approximate_slices guarded _ rule input

/-- The depth from which on the approximations of a rule agree on inputs of a length. -/
def depthBound (grammar : Grammar ι α) (rank : ι → Nat) (rule : ι) (length : Nat) : Nat :=
  grammar.height * length + rank rule + 1

theorem approximate_succ_agree (guarded : grammar.Guarded rank) (depth : Nat) (rule : ι)
    (bound : Nat) (deep : grammar.depthBound rank rule bound ≤ depth) :
    AgreeUpTo bound (grammar.approximate depth rule) (grammar.approximate (depth + 1) rule) := by
  induction depth generalizing rule bound with
  | zero => exact absurd deep (Nat.not_succ_le_zero _)
  | succ depth ih =>
      simp only [depthBound] at deep ih
      apply guarded.agree _ _ (approximate_slices guarded depth) bound rule
      · intro other shorter less
        apply ih other shorter
        have level := guarded.rank_lt other
        have scaled : grammar.height * (shorter + 1) ≤ grammar.height * bound :=
          Nat.mul_le_mul_left _ less
        rw [Nat.mul_succ] at scaled
        omega
      · intro other lower
        exact ih other bound (by omega)

theorem approximate_agree (guarded : grammar.Guarded rank) (rule : ι) (bound depth deeper : Nat)
    (deep : grammar.depthBound rank rule bound ≤ depth) (le : depth ≤ deeper) :
    AgreeUpTo bound (grammar.approximate depth rule) (grammar.approximate deeper rule) := by
  induction le with
  | refl => exact agree_refl _ _
  | step le ih =>
      intro input short
      rw [ih input short]
      exact approximate_succ_agree guarded _ rule bound (Nat.le_trans deep le) input short

theorem depth_bound_le (guarded : grammar.Guarded rank) (rule : ι) {length limit : Nat}
    (short : length ≤ limit) :
    grammar.depthBound rank rule length ≤ grammar.height * (limit + 1) := by
  have level := guarded.rank_lt rule
  have scaled : grammar.height * length ≤ grammar.height * limit := Nat.mul_le_mul_left _ short
  rw [depthBound, Nat.mul_succ]
  omega

/-- From some depth on, the approximations of a rule are the rule. -/
theorem approximate_eq (guarded : grammar.Guarded rank) (rule : ι) (input : List Char)
    (depth : Nat) (deep : grammar.depthBound rank rule input.length ≤ depth) :
    grammar.approximate depth rule input = grammar.parser rule input := by
  have least := Nat.le_refl (grammar.depthBound rank rule input.length)
  have limit := depth_bound_le guarded rule (Nat.le_refl input.length)
  rw [parser, ← approximate_agree guarded rule _ _ _ least deep input (Nat.le_refl _)]
  exact approximate_agree guarded rule _ _ _ least limit input (Nat.le_refl _)

/-- The rules solve the equations of the grammar. -/
theorem parser_eq (guarded : grammar.Guarded rank) (rule : ι) :
    grammar.parser rule = grammar.productions grammar.parser rule := by
  funext input
  rw [← approximate_eq guarded rule input (grammar.height * (input.length + 1) + 1)
    (Nat.le_succ_of_le (depth_bound_le guarded rule (Nat.le_refl _)))]
  apply guarded.agree _ _ (approximate_slices guarded _) input.length rule _ _ input
    (Nat.le_refl _)
  · intro other shorter less rest short
    exact approximate_eq guarded other rest _ (depth_bound_le guarded other (by omega))
  · intro other _ rest short
    exact approximate_eq guarded other rest _ (depth_bound_le guarded other short)

end Descent.Grammar
