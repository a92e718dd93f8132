import Descent.Proofs.Unfolding
import Mathlib.Logic.Relation

/-!
Evaluation of the rules of a grammar up to a depth of nested calls. A rule that would be entered
below that depth stays unfinished, and so does all that waits for it. Main statements: a rule is
finished exactly if the calls that its body makes are finished one level below; from some depth on
every rule is finished, with the outcome of its parser; a chain of nested calls comes back to a rule
on a shorter input only; and so do the calls that one body makes one after the other.
-/

namespace Descent

open Descent.Parser

variable {ι α β γ : Type}

namespace Body

variable {rules : ι → Parser α}

/-! An unfinished call leaves the body unfinished. -/

/-- A repetition with an unfinished round is unfinished, if the other rounds are answered right. -/
theorem advance_unanswered {parser : Parser β} {answered : List Char → Option (Outcome β)}
    (sound : ∀ round, answered round = none ∨ answered round = some (parser round))
    (input : List Char) (unfinished : ∃ round ∈ rounds parser input, answered round = none) :
    advance? answered input = none := by
  fun_induction advance parser input with
  | case1 input value rest run shorter following ih =>
      rw [rounds_matched run shorter, List.exists_mem_cons_iff] at unfinished
      rcases sound input with waits | finished
      · rw [advance?, waits]
      · have later := unfinished.resolve_left (by simp [finished])
        rw [advance?, finished, run]
        simp only [shorter, if_true, ih later, Option.map_none]
  | case2 input value rest run longer =>
      obtain ⟨round, member, waits⟩ := unfinished
      rw [rounds, run] at member
      simp only [longer, if_false, List.mem_singleton] at member
      rw [advance?, ← member, waits]
  | case3 input rest run =>
      obtain ⟨round, member, waits⟩ := unfinished
      rw [rounds, run, List.mem_singleton] at member
      rw [advance?, ← member, waits]

section Answers

variable {answer : ι → List Char → Option (Outcome α)}
  (sound : ∀ rule input, answer rule input = none ∨ answer rule input = some (rules rule input))
include sound

theorem attempt_answered (body : Body ι α β) (input : List Char)
    (finished : ¬∃ entered ∈ body.calls rules input, answer entered.1 entered.2 = none) :
    body.attempt answer input = some (body.run rules input) := by
  apply attempt_eq
  intro entered called
  apply (sound entered.1 entered.2).resolve_left
  exact fun waits => finished ⟨entered, called, waits⟩

theorem attempt_unanswered (body : Body ι α β) (input : List Char)
    (unfinished : ∃ entered ∈ body.calls rules input, answer entered.1 entered.2 = none) :
    body.attempt answer input = none := by
  induction body generalizing input with
  | basic parser sliced =>
      obtain ⟨entered, called, -⟩ := unfinished
      contradiction
  | call rule =>
      obtain ⟨entered, called, waits⟩ := unfinished
      rwa [List.mem_singleton.mp called] at waits
  | bind first next ih ihNext =>
      by_cases early : ∃ entered ∈ first.calls rules input, answer entered.1 entered.2 = none
      · rw [attempt, ih input early]
      · obtain ⟨entered, called, waits⟩ := unfinished
        rcases mem_calls_bind.mp called with before | ⟨value, rest, run, late⟩
        · exact absurd ⟨entered, before, waits⟩ early
        · rw [attempt, attempt_answered sound first input early, run]
          exact ihNext value rest ⟨entered, late, waits⟩
  | orElse first second ih ihSecond =>
      by_cases early : ∃ entered ∈ first.calls rules input, answer entered.1 entered.2 = none
      · rw [attempt, ih input early]
      · obtain ⟨entered, called, waits⟩ := unfinished
        rcases mem_calls_or_else.mp called with before | ⟨rest, run, late⟩
        · exact absurd ⟨entered, before, waits⟩ early
        · rw [attempt, attempt_answered sound first input early, run]
          exact ihSecond input ⟨entered, late, waits⟩
  | optional inner ih => rw [attempt, ih input unfinished]
  | many inner ih =>
      have rightly (round : List Char) : inner.attempt answer round = none ∨
          inner.attempt answer round = some (inner.run rules round) := by
        by_cases unanswered :
            ∃ entered ∈ inner.calls rules round, answer entered.1 entered.2 = none
        · exact .inl (ih round unanswered)
        · exact .inr (attempt_answered sound inner round unanswered)
      obtain ⟨entered, called, waits⟩ := unfinished
      obtain ⟨round, member, inside⟩ := List.mem_flatMap.mp called
      have unfinishedRound := ih round ⟨entered, inside, waits⟩
      rw [attempt, advance_unanswered rightly input ⟨round, member, unfinishedRound⟩]
      rfl

theorem attempt_sound (body : Body ι α β) (input : List Char) :
    body.attempt answer input = none ∨
      body.attempt answer input = some (body.run rules input) := by
  by_cases unfinished : ∃ entered ∈ body.calls rules input, answer entered.1 entered.2 = none
  · exact .inl (attempt_unanswered sound body input unfinished)
  · exact .inr (attempt_answered sound body input unfinished)

/-- A body is finished exactly if all calls that it makes are. -/
theorem attempt_finished_iff (body : Body ι α β) (input : List Char) :
    (body.attempt answer input).isSome ↔
      ∀ entered ∈ body.calls rules input, (answer entered.1 entered.2).isSome := by
  by_cases unfinished : ∃ entered ∈ body.calls rules input, answer entered.1 entered.2 = none
  · rw [attempt_unanswered sound body input unfinished]
    obtain ⟨entered, called, waits⟩ := unfinished
    constructor
    · intro finished
      contradiction
    · intro finished
      have answered := finished entered called
      rwa [waits] at answered
  · rw [attempt_answered sound body input unfinished]
    refine ⟨fun _ entered called => ?_, fun _ => rfl⟩
    rw [Option.isSome_iff_ne_none]
    exact fun waits => unfinished ⟨entered, called, waits⟩

end Answers

/-! Calls of one run of a body, one after the other. -/

/-- A later round starts at or behind the place where an earlier one has ended. -/
theorem rounds_pairwise {parser : Parser β} (slices : parser.Slices) (input : List Char) :
    (rounds parser input).Pairwise fun earlier later => ∃ value rest,
      parser earlier = .matched value rest ∧ rest.length < earlier.length ∧
        later.length ≤ rest.length := by
  fun_induction advance parser input with
  | case1 input value rest run shorter following ih =>
      rw [rounds_matched run shorter, List.pairwise_cons]
      refine ⟨?_, ih⟩
      intro later member
      exact ⟨value, rest, run, shorter, (rounds_suffix slices rest later member).length_le⟩
  | case2 input value rest run longer =>
      rw [rounds, run]
      simp only [longer, if_false, List.pairwise_singleton]
  | case3 input rest run =>
      rw [rounds, run]
      exact List.pairwise_singleton _ _

/-- The body calls rules only at the place where it starts. -/
def CallsHere (rules : ι → Parser α) (body : Body ι α β) : Prop :=
  ∀ input, ∀ entered ∈ body.calls rules input, entered.2 = input

theorem CallsHere.basic (parser : Parser β) (slices : parser.Slices) :
    CallsHere rules (.basic parser slices : Body ι α β) := fun _ => List.forall_mem_nil _

theorem CallsHere.call (rule : ι) : CallsHere rules (.call rule : Body ι α α) :=
  fun _ => List.forall_mem_singleton.mpr rfl

theorem CallsHere.map (f : β → γ) {inner : Body ι α β} (here : inner.CallsHere rules) :
    (inner.map f).CallsHere rules := by
  intro input entered called
  rcases mem_calls_bind.mp called with inside | ⟨value, rest, -, behind⟩
  · exact here input entered inside
  · contradiction

/-- Of two calls of one rule, the second is on a shorter input. -/
def Forward (earlier later : ι × List Char) : Prop :=
  earlier.1 = later.1 → later.2.length < earlier.2.length

/-- The body calls only rules in `called`, and a rule that it calls again it calls on a shorter
input. -/
structure Advances (rules : ι → Parser α) (called : List ι) (body : Body ι α β) : Prop where
  mem (input : List Char) : ∀ entered ∈ body.calls rules input, entered.1 ∈ called
  forward (input : List Char) : (body.calls rules input).Pairwise Forward

namespace Advances

variable {called others : List ι} {first second : Body ι α β} {next : β → Body ι α γ}

theorem basic (parser : Parser β) (slices : parser.Slices) :
    Advances rules [] (.basic parser slices : Body ι α β) where
  mem _ := List.forall_mem_nil _
  forward _ := List.Pairwise.nil

theorem call (rule : ι) : Advances rules [rule] (.call rule : Body ι α α) where
  mem _ := List.forall_mem_singleton.mpr (List.mem_singleton_self rule)
  forward _ := List.pairwise_singleton _ _

theorem bind_of (advances : Advances rules called first)
    (following : ∀ value, Advances rules others (next value))
    (apart : ∀ input value rest, first.run rules input = .matched value rest →
      ∀ earlier ∈ first.calls rules input, ∀ later ∈ (next value).calls rules rest,
        Forward earlier later) : Advances rules (called ++ others) (first.bind next) where
  mem input entered inside := by
    rw [List.mem_append]
    rcases mem_calls_bind.mp inside with early | ⟨value, rest, -, late⟩
    · exact .inl (advances.mem input entered early)
    · exact .inr ((following value).mem rest entered late)
  forward input := by
    rw [calls]
    cases run : first.run rules input with
    | failed rest => simpa using advances.forward input
    | matched value rest =>
        exact List.pairwise_append.mpr
          ⟨advances.forward input, (following value).forward rest, apart input value rest run⟩

theorem forward_of_apart (apart : ∀ rule ∈ called, rule ∉ others) {earlier later : ι × List Char}
    (early : earlier.1 ∈ called) (late : later.1 ∈ others) : Forward earlier later :=
  fun same => absurd (same ▸ late) (apart earlier.1 early)

/-- Different rules one after the other. -/
theorem bind (apart : ∀ rule ∈ called, rule ∉ others) (advances : Advances rules called first)
    (following : ∀ value, Advances rules others (next value)) :
    Advances rules (called ++ others) (first.bind next) := by
  apply bind_of advances following
  intro input value rest _ earlier early later late
  exact forward_of_apart apart (advances.mem input earlier early)
    ((following value).mem rest later late)

/-- What is called later is called behind the place where all before was called. -/
theorem bind_behind (slices : ∀ rule, (rules rule).Slices) (here : first.CallsHere rules)
    (behind : ∀ value, (next value).Descends (fun _ => False) rules) (advances : Advances rules called first)
    (following : ∀ value, Advances rules others (next value)) :
    Advances rules (called ++ others) (first.bind next) := by
  apply bind_of advances following
  intro input value rest run earlier early later late _
  have left := ((run_slices slices first).matched_suffix run).length_le
  have shorter := (behind value rest later late).resolve_right id
  rw [here input earlier early]
  omega

theorem bind_basic {opening : Parser β} {opens : opening.Slices}
    (following : ∀ value, Advances rules others (next value)) :
    Advances rules others ((Body.basic opening opens).bind next) :=
  bind (List.forall_mem_nil _) (basic opening opens) following

theorem ended (advances : Advances rules called first)
    (following : ∀ value, Advances rules [] (next value)) :
    Advances rules called (first.bind next) := by
  have whole := bind (fun _ _ => List.not_mem_nil) advances following
  rwa [List.append_nil] at whole

theorem map (f : β → γ) (advances : Advances rules called first) :
    Advances rules called (first.map f) := ended advances fun _ => basic _ _

theorem orElse (apart : ∀ rule ∈ called, rule ∉ others) (advances : Advances rules called first)
    (following : Advances rules others second) :
    Advances rules (called ++ others) (first.orElse second) where
  mem input entered inside := by
    rw [List.mem_append]
    rcases mem_calls_or_else.mp inside with early | ⟨rest, -, late⟩
    · exact .inl (advances.mem input entered early)
    · exact .inr (following.mem input entered late)
  forward input := by
    rw [calls]
    cases run : first.run rules input with
    | matched value rest => simpa using advances.forward input
    | failed rest =>
        refine List.pairwise_append.mpr ⟨advances.forward input, following.forward input, ?_⟩
        intro earlier early later late
        exact forward_of_apart apart (advances.mem input earlier early)
          (following.mem input later late)

theorem optional (advances : Advances rules called first) :
    Advances rules called first.optional where
  mem := advances.mem
  forward := advances.forward

theorem many (advances : Advances rules called first)
    (rounds_forward : ∀ input, (rounds (first.run rules) input).Pairwise fun earlier later =>
      ∀ outer ∈ first.calls rules earlier, ∀ entered ∈ first.calls rules later,
        entered.2.length < outer.2.length) : Advances rules called first.many where
  mem input entered inside := by
    obtain ⟨round, -, entering⟩ := List.mem_flatMap.mp inside
    exact advances.mem round entered entering
  forward input := by
    refine List.pairwise_flatMap.mpr ⟨fun round _ => advances.forward round, ?_⟩
    refine (rounds_forward input).imp ?_
    intro earlier later shorter outer before entered after _
    exact shorter outer before entered after

/-- Rounds that call rules where they start. -/
theorem many_here (slices : ∀ rule, (rules rule).Slices) (advances : Advances rules called first)
    (here : first.CallsHere rules) : Advances rules called first.many := by
  apply advances.many
  intro input
  refine (rounds_pairwise (run_slices slices first) input).imp ?_
  intro earlier later ordered outer before entered after
  obtain ⟨value, rest, -, shorter, behind⟩ := ordered
  rw [here earlier outer before, here later entered after]
  exact Nat.lt_of_le_of_lt behind shorter

/-- Rounds that consume something and then call rules. -/
theorem many_opened {opening : Parser β} {opens : opening.Slices}
    (slices : ∀ rule, (rules rule).Slices) (consumes : opening.Consumes)
    (advances : ∀ value, Advances rules called (next value))
    (here : ∀ value, (next value).CallsHere rules) :
    Advances rules called ((Body.basic opening opens).bind next).many := by
  have entered_behind {input : List Char} {entered : ι × List Char}
      (inside : entered ∈ ((Body.basic opening opens).bind next).calls rules input) :
      ∃ value, opening input = .matched value entered.2 := by
    rcases mem_calls_bind.mp inside with early | ⟨value, rest, run, late⟩
    · contradiction
    · rw [here value rest entered late]
      exact ⟨value, run⟩
  apply (bind_basic advances).many
  intro input
  refine (rounds_pairwise (run_slices slices _) input).imp ?_
  intro earlier later ordered outer before entered after
  obtain ⟨value, rest, matched, -, behind⟩ := ordered
  obtain ⟨sign, middle, opened, continued⟩ := bind_matched.mp matched
  have ended := ((run_slices slices (next sign)).matched_suffix continued).length_le
  obtain ⟨_, place⟩ := entered_behind before
  obtain ⟨_, later_place⟩ := entered_behind after
  have shorter := consumes later _ _ later_place
  cases opened.symm.trans place
  omega

theorem separated {separator : Parser γ} {separates : separator.Slices}
    (slices : ∀ rule, (rules rule).Slices) (consumes : separator.Consumes)
    (here : first.CallsHere rules) (advances : Advances rules called first) :
    Advances rules (called ++ called) (Body.separated first (.basic separator separates)) := by
  have others : Advances rules called
      (Body.precededBy (.basic separator separates) first).many :=
    many_opened slices consumes (fun _ => advances) fun _ => here
  refine bind_behind slices here (fun _ => ?_) advances fun _ => map _ others
  exact .bind slices (.many slices (.opened slices consumes)) fun _ => .basic _ _

end Advances

end Body

/-! Calls nested up to a depth. -/

/-- The outcome of a rule, if no more calls than `depth` are nested in it. -/
def evaluate (bodies : ι → Body ι α α) : Nat → ι → List Char → Option (Outcome α)
  | 0, _, _ => none
  | depth + 1, rule, input => (bodies rule).attempt (evaluate bodies depth) input

/-- The outer rule, on its input, calls the inner rule on its input. -/
def Activates (bodies : ι → Body ι α α) (rules : ι → Parser α) (outer inner : ι × List Char) :
    Prop := inner ∈ (bodies outer.1).calls rules outer.2

instance [DecidableEq ι] (bodies : ι → Body ι α α) (rules : ι → Parser α)
    (outer inner : ι × List Char) : Decidable (Activates bodies rules outer inner) :=
  inferInstanceAs (Decidable (inner ∈ (bodies outer.1).calls rules outer.2))

/-- Evaluation of the body ends on every input: from some depth on it is finished with the outcome of
the parser, and at no depth with another one. It waits exactly for the calls that it makes, and
those of one rule are on shorter and shorter inputs. -/
structure Grammar.Ends (grammar : Grammar ι α) (bodies : ι → Body ι α α) (body : Body ι α β)
    (parser : Parser β) : Prop where
  finishes (input : List Char) (depth : Nat) (deep : grammar.height * (input.length + 1) ≤ depth) :
    body.attempt (evaluate bodies depth) input = some (parser input)
  settled (input : List Char) (depth : Nat) :
    body.attempt (evaluate bodies depth) input = none ∨
      body.attempt (evaluate bodies depth) input = some (parser input)
  waits (input : List Char) (depth : Nat) :
    (body.attempt (evaluate bodies depth) input).isSome ↔
      ∀ entered ∈ body.calls grammar.parser input,
        (evaluate bodies depth entered.1 entered.2).isSome
  forward (input : List Char) : (body.calls grammar.parser input).Pairwise Body.Forward

/-- The bodies are the productions of the grammar, evaluation of every rule ends, and a rule is
entered inside itself on a shorter input only. -/
structure Grammar.Terminates (grammar : Grammar ι α) (bodies : ι → Body ι α α) : Prop where
  run (rules : ι → Parser α) (rule : ι) :
    (bodies rule).run rules = grammar.productions rules rule
  finishes (rule : ι) (input : List Char) (depth : Nat)
    (deep : grammar.height * (input.length + 1) ≤ depth) :
    evaluate bodies depth rule input = some (grammar.parser rule input)
  ends (rule : ι) : grammar.Ends bodies (bodies rule) (grammar.parser rule)
  reenters (rule : ι) (input again : List Char)
    (nested : Relation.TransGen (Activates bodies grammar.parser) (rule, input) (rule, again)) :
    again <:+ input ∧ again.length < input.length

namespace Grammar.WrittenAs

variable {grammar : Grammar ι α} {bodies : ι → Body ι α α} {rank : ι → Nat}
  (written : grammar.WrittenAs bodies rank)
include written

theorem parser_slices (rule : ι) : (grammar.parser rule).Slices :=
  Grammar.parser_slices written.guarded rule

theorem parser_eq_run (rule : ι) :
    grammar.parser rule = (bodies rule).run grammar.parser := by
  rw [written.run]
  exact Grammar.parser_eq written.guarded rule

theorem evaluate_sound (depth : Nat) (rule : ι) (input : List Char) :
    evaluate bodies depth rule input = none ∨
      evaluate bodies depth rule input = some (grammar.parser rule input) := by
  induction depth generalizing rule input with
  | zero => exact .inl rfl
  | succ depth ih =>
      rw [evaluate, written.parser_eq_run]
      exact Body.attempt_sound ih (bodies rule) input

theorem evaluate_of_deep (depth : Nat) (rule : ι) (input : List Char)
    (deep : grammar.depthBound rank rule input.length ≤ depth) :
    evaluate bodies depth rule input = some (grammar.parser rule input) := by
  induction depth generalizing rule input with
  | zero => exact absurd deep (Nat.not_succ_le_zero _)
  | succ depth ih =>
      rw [evaluate, written.parser_eq_run]
      apply Body.attempt_eq
      intro entered called
      apply ih
      have level := written.rank_lt entered.1
      have suffix := Body.calls_suffix written.parser_slices (bodies rule) input entered called
      have scaled : grammar.height * entered.2.length ≤ grammar.height * input.length :=
        Nat.mul_le_mul_left _ suffix.length_le
      rw [depthBound] at deep ⊢
      rcases written.descends _ written.parser_slices rule input entered called with
        shorter | lower
      · have scaled : grammar.height * (entered.2.length + 1) ≤ grammar.height * input.length :=
          Nat.mul_le_mul_left _ shorter
        rw [Nat.mul_succ] at scaled
        omega
      · omega

/-- At a depth that grows with the input, everything that is built from the rules is finished. -/
theorem attempt_of_deep (body : Body ι α β) (input : List Char) (depth : Nat)
    (deep : grammar.height * (input.length + 1) ≤ depth) :
    body.attempt (evaluate bodies depth) input = some (body.run grammar.parser input) := by
  apply Body.attempt_eq
  intro entered called
  have suffix := Body.calls_suffix written.parser_slices body input entered called
  have limit := depth_bound_le written.guarded entered.1 suffix.length_le
  exact written.evaluate_of_deep depth entered.1 entered.2 (Nat.le_trans limit deep)

theorem ends {body : Body ι α β} {parser : Parser β} {called : List ι}
    (run : body.run grammar.parser = parser) (advances : body.Advances grammar.parser called) :
    grammar.Ends bodies body parser where
  finishes input depth deep := by rw [written.attempt_of_deep body input depth deep, run]
  settled input depth := by
    rw [← run]
    exact Body.attempt_sound (written.evaluate_sound depth) body input
  waits input depth := Body.attempt_finished_iff (written.evaluate_sound depth) body input
  forward := advances.forward

theorem activates_descends {outer inner : ι × List Char}
    (called : Activates bodies grammar.parser outer inner) :
    inner.2 <:+ outer.2 ∧ (inner.2.length < outer.2.length ∨ rank inner.1 < rank outer.1) := by
  have slices := written.parser_slices
  exact ⟨Body.calls_suffix slices (bodies outer.1) outer.2 inner called,
    written.descends _ slices outer.1 outer.2 inner called⟩

/-- A chain of nested calls goes down in the ranks as long as it stays where it is. -/
theorem nested_descends {outer inner : ι × List Char}
    (nested : Relation.TransGen (Activates bodies grammar.parser) outer inner) :
    inner.2 <:+ outer.2 ∧ (inner.2.length < outer.2.length ∨ rank inner.1 < rank outer.1) := by
  induction nested with
  | single called => exact written.activates_descends called
  | tail chain called ih =>
      obtain ⟨behind, lower⟩ := written.activates_descends called
      refine ⟨behind.trans ih.1, ?_⟩
      have above := ih.1.length_le
      have below := behind.length_le
      omega

theorem terminates (advances : ∀ rule, ∃ called, (bodies rule).Advances grammar.parser called) :
    grammar.Terminates bodies where
  run := written.run
  finishes rule input depth deep := by
    have limit := depth_bound_le written.guarded rule (Nat.le_refl input.length)
    exact written.evaluate_of_deep depth rule input (Nat.le_trans limit deep)
  ends rule := by
    obtain ⟨called, forward⟩ := advances rule
    exact written.ends (written.parser_eq_run rule).symm forward
  reenters rule input again nested := by
    obtain ⟨suffix, lower⟩ := written.nested_descends nested
    exact ⟨suffix, lower.resolve_right (Nat.lt_irrefl _)⟩

end Grammar.WrittenAs

end Descent
