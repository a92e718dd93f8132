import Descent.Grammar
import Descent.Proofs.Parser.Agreement

/-!
Bodies of rules. A body is a parser written out as data as far as it calls rules, so that one can
tell which rules it calls, and where, apart from what it returns. Over parsers for the rules a body
is a parser again. It can also be evaluated over calls that may stay unfinished, and then an
unfinished call leaves all around it unfinished. Main statements: where the calls that a body makes
are finished, the body is finished, with the outcome of its parser; and its outcome depends on the
rules only where it calls them.
-/

namespace Descent

open Descent.Parser

/-- A parser over calls of rules; the rules have values in `α`. -/
inductive Body (ι α : Type) : Type → Type 1 where
  /-- A parser that calls no rule. -/
  | basic {β : Type} (parser : Parser β) (slices : parser.Slices) : Body ι α β
  | call (rule : ι) : Body ι α α
  | bind {β γ : Type} (first : Body ι α β) (next : β → Body ι α γ) : Body ι α γ
  | orElse {β : Type} (first second : Body ι α β) : Body ι α β
  | optional {β : Type} (inner : Body ι α β) : Body ι α (Option β)
  | many {β : Type} (inner : Body ι α β) : Body ι α (List β)

/-- The inputs of the rounds of a repetition, the last round included, which ends it. -/
def Parser.rounds {β : Type} (parser : Parser β) (input : List Char) : List (List Char) :=
  input :: match parser input with
    | .matched _ rest => if rest.length < input.length then rounds parser rest else []
    | .failed _ => []
termination_by input.length

/-- The consuming rounds of a repetition, like `advance`, where a round may stay unfinished. -/
def Parser.advance? {β : Type} (parser : List Char → Option (Outcome β)) (input : List Char) :
    Option (List β × List Char) :=
  match parser input with
  | none => none
  | some (.failed _) => some ([], input)
  | some (.matched value rest) =>
      if rest.length < input.length then
        (advance? parser rest).map fun following => (value :: following.1, following.2)
      else some ([], input)
termination_by input.length

namespace Body

variable {ι α β γ δ : Type}

/-- The body as a parser over parsers for the rules. -/
def run (rules : ι → Parser α) {β : Type} : Body ι α β → Parser β
  | basic parser _ => parser
  | call rule => rules rule
  | bind first next => first.run rules >>= fun value => (next value).run rules
  | orElse first second => first.run rules <|> second.run rules
  | optional inner => Parser.optional (inner.run rules)
  | many inner => Parser.many (inner.run rules)

/-- The outcome of the body where every call is answered with its outcome, or not at all. -/
def attempt (answer : ι → List Char → Option (Outcome α)) {β : Type} :
    Body ι α β → List Char → Option (Outcome β)
  | basic parser _, input => some (parser input)
  | call rule, input => answer rule input
  | bind first next, input =>
      match first.attempt answer input with
      | none => none
      | some (.failed rest) => some (.failed rest)
      | some (.matched value rest) => (next value).attempt answer rest
  | orElse first second, input =>
      match first.attempt answer input with
      | none => none
      | some (.matched value rest) => some (.matched value rest)
      | some (.failed _) => second.attempt answer input
  | optional inner, input =>
      match inner.attempt answer input with
      | none => none
      | some (.matched value rest) => some (.matched (some value) rest)
      | some (.failed _) => some (.matched none input)
  | many inner, input =>
      (advance? (inner.attempt answer) input).map fun run => .matched run.1 run.2

/-- The calls that the body makes on an input, each with its own input, in order. -/
def calls (rules : ι → Parser α) {β : Type} : Body ι α β → List Char → List (ι × List Char)
  | basic _ _, _ => []
  | call rule, input => [(rule, input)]
  | bind first next, input =>
      first.calls rules input ++
        match first.run rules input with
        | .matched value rest => (next value).calls rules rest
        | .failed _ => []
  | orElse first second, input =>
      first.calls rules input ++
        match first.run rules input with
        | .matched _ _ => []
        | .failed _ => second.calls rules input
  | optional inner, input => inner.calls rules input
  | many inner, input => (rounds (inner.run rules) input).flatMap (inner.calls rules)

/-! Bodies that are composed like parsers. -/

protected def pure (value : β) : Body ι α β := basic (pure value) (pure_slices value)

def map (f : β → γ) (inner : Body ι α β) : Body ι α γ := inner.bind fun value => .pure (f value)

def precededBy (opening : Body ι α γ) (inner : Body ι α β) : Body ι α β :=
  opening.bind fun _ => inner

def terminatedBy (inner : Body ι α β) (closing : Body ι α γ) : Body ι α β :=
  inner.bind fun value => closing.bind fun _ => .pure value

def between (opening : Body ι α γ) (closing : Body ι α δ) (inner : Body ι α β) : Body ι α β :=
  precededBy opening (terminatedBy inner closing)

def pair (first : Body ι α β) (second : Body ι α γ) : Body ι α (β × γ) :=
  first.bind fun value => second.map fun other => (value, other)

def separated (item : Body ι α β) (separator : Body ι α γ) : Body ι α (List β) :=
  item.bind fun first => (many (precededBy separator item)).map fun others => first :: others

variable {rules : ι → Parser α}

theorem map_run (f : β → γ) (inner : Body ι α β) :
    (inner.map f).run rules = f <$> inner.run rules := by
  funext input
  rw [map, run, bind_apply, map_apply]
  cases inner.run rules input with
  | matched value rest => rfl
  | failed rest => rfl

theorem run_slices (slices : ∀ rule, (rules rule).Slices) (body : Body ι α β) :
    (body.run rules).Slices := by
  induction body with
  | basic parser sliced => exact sliced
  | call rule => exact slices rule
  | bind first next ih ihNext => exact bind_slices ih ihNext
  | orElse first second ih ihSecond => exact or_else_slices ih ihSecond
  | optional inner ih => exact optional_slices ih
  | many inner ih => exact many_slices ih

/-- A repetition of which all rounds are answered is finished. -/
theorem advance_answered {parser : Parser β} {answered : List Char → Option (Outcome β)}
    (input : List Char)
    (known : ∀ round ∈ rounds parser input, answered round = some (parser round)) :
    advance? answered input = some (advance parser input) := by
  fun_induction advance parser input with
  | case1 input value rest run shorter following ih =>
      rw [rounds, run] at known
      simp only [shorter, if_true, List.forall_mem_cons] at known
      rw [advance?, known.1, run]
      simp only [shorter, if_true, ih known.2]
      rfl
  | case2 input value rest run longer =>
      rw [rounds, List.forall_mem_cons] at known
      rw [advance?, known.1, run]
      simp only [longer, if_false]
  | case3 input rest run =>
      rw [rounds, List.forall_mem_cons] at known
      rw [advance?, known.1, run]

theorem attempt_eq {answer : ι → List Char → Option (Outcome α)} (body : Body ι α β)
    (input : List Char)
    (known : ∀ entered ∈ body.calls rules input,
      answer entered.1 entered.2 = some (rules entered.1 entered.2)) :
    body.attempt answer input = some (body.run rules input) := by
  induction body generalizing input with
  | basic parser sliced => rfl
  | call rule => exact known (rule, input) List.mem_cons_self
  | bind first next ih ihNext =>
      rw [calls, List.forall_mem_append] at known
      rw [attempt, run, bind_apply, ih input known.1]
      cases run : first.run rules input with
      | failed rest => rfl
      | matched value rest =>
          rw [run] at known
          exact ihNext value rest known.2
  | orElse first second ih ihSecond =>
      rw [calls, List.forall_mem_append] at known
      rw [attempt, run, or_else_apply, ih input known.1]
      cases run : first.run rules input with
      | matched value rest => rfl
      | failed rest =>
          rw [run] at known
          exact ihSecond input known.2
  | optional inner ih =>
      rw [attempt, run, Parser.optional, ih input known]
      cases inner.run rules input with
      | matched value rest => rfl
      | failed rest => rfl
  | many inner ih =>
      have answered : ∀ round ∈ rounds (inner.run rules) input,
          inner.attempt answer round = some (inner.run rules round) := by
        intro round member
        apply ih
        intro entered called
        exact known entered (List.mem_flatMap.mpr ⟨round, member, called⟩)
      rw [attempt, advance_answered input answered]
      rfl

/-- A body does not depend on the rules where it does not call them. -/
theorem run_congr {others : ι → Parser α} (body : Body ι α β) (input : List Char)
    (same : ∀ entered ∈ body.calls rules input,
      rules entered.1 entered.2 = others entered.1 entered.2) :
    body.run rules input = body.run others input := by
  have first : body.attempt (fun rule rest => some (others rule rest)) input =
      some (body.run rules input) :=
    attempt_eq body input fun entered called => congrArg some (same entered called).symm
  have second : body.attempt (fun rule rest => some (others rule rest)) input =
      some (body.run others input) := attempt_eq body input fun _ _ => rfl
  exact Option.some.inj (first.symm.trans second)

/-! Rounds of a repetition. -/

theorem rounds_matched {parser : Parser β} {input rest : List Char} {value : β}
    (run : parser input = .matched value rest) (shorter : rest.length < input.length) :
    rounds parser input = input :: rounds parser rest := by
  rw [rounds, run]
  simp only [shorter, if_true]

theorem rounds_suffix {parser : Parser β} (slices : parser.Slices) (input : List Char) :
    ∀ round ∈ rounds parser input, round <:+ input := by
  fun_induction advance parser input with
  | case1 input value rest run shorter following ih =>
      rw [rounds_matched run shorter, List.forall_mem_cons]
      refine ⟨List.suffix_refl _, ?_⟩
      intro round member
      exact (ih round member).trans (slices.matched_suffix run)
  | case2 input value rest run longer =>
      rw [rounds, run]
      simp only [longer, if_false, List.forall_mem_singleton, List.suffix_refl]
  | case3 input rest run =>
      rw [rounds, run]
      simp only [List.forall_mem_singleton, List.suffix_refl]

/-! Where bodies call rules. -/

theorem mem_calls_bind {first : Body ι α β} {next : β → Body ι α γ} {input : List Char}
    {entered : ι × List Char} : entered ∈ (first.bind next).calls rules input ↔
      entered ∈ first.calls rules input ∨ ∃ value rest,
        first.run rules input = .matched value rest ∧
          entered ∈ (next value).calls rules rest := by
  rw [calls, List.mem_append]
  cases first.run rules input with
  | failed rest => simp
  | matched value rest => simp

theorem mem_calls_or_else {first second : Body ι α β} {input : List Char}
    {entered : ι × List Char} : entered ∈ (first.orElse second).calls rules input ↔
      entered ∈ first.calls rules input ∨ ∃ rest,
        first.run rules input = .failed rest ∧ entered ∈ second.calls rules input := by
  rw [calls, List.mem_append]
  cases first.run rules input with
  | matched value rest => simp
  | failed rest => simp

theorem calls_suffix (slices : ∀ rule, (rules rule).Slices) (body : Body ι α β)
    (input : List Char) : ∀ entered ∈ body.calls rules input, entered.2 <:+ input := by
  induction body generalizing input with
  | basic parser sliced => exact List.forall_mem_nil _
  | call rule => exact List.forall_mem_singleton.mpr (List.suffix_refl _)
  | bind first next ih ihNext =>
      intro entered called
      rcases mem_calls_bind.mp called with early | ⟨value, rest, run, late⟩
      · exact ih input entered early
      · exact (ihNext value rest entered late).trans ((run_slices slices first).matched_suffix run)
  | orElse first second ih ihSecond =>
      intro entered called
      rcases mem_calls_or_else.mp called with early | ⟨rest, -, late⟩
      · exact ih input entered early
      · exact ihSecond input entered late
  | optional inner ih => exact ih input
  | many inner ih =>
      intro entered called
      obtain ⟨round, member, inside⟩ := List.mem_flatMap.mp called
      exact (ih round entered inside).trans (rounds_suffix (run_slices slices inner) input round member)

/-- At the place where it starts the body calls only rules in `beside`; all others it calls on
shorter inputs. -/
def Descends (beside : ι → Prop) (rules : ι → Parser α) (body : Body ι α β) : Prop :=
  ∀ input, ∀ entered ∈ body.calls rules input,
    entered.2.length < input.length ∨ beside entered.1

namespace Descends

variable {beside : ι → Prop} {first second : Body ι α β} {next : β → Body ι α γ}

theorem basic (parser : Parser β) (slices : parser.Slices) :
    Descends beside rules (.basic parser slices : Body ι α β) := fun _ => List.forall_mem_nil _

theorem call {rule : ι} (allowed : beside rule) :
    Descends beside rules (.call rule : Body ι α α) :=
  fun _ => List.forall_mem_singleton.mpr (.inr allowed)

theorem orElse (descends : Descends beside rules first) (other : Descends beside rules second) :
    Descends beside rules (first.orElse second) := by
  intro input entered called
  rcases mem_calls_or_else.mp called with early | ⟨rest, -, late⟩
  · exact descends input entered early
  · exact other input entered late

theorem optional (descends : Descends beside rules first) : Descends beside rules first.optional :=
  descends

variable (slices : ∀ rule, (rules rule).Slices)
include slices

/-- What stands behind a parser that consumes something may call every rule. -/
theorem opened {opening : Parser β} {opens : opening.Slices} (consumes : opening.Consumes) :
    Descends beside rules ((Body.basic opening opens).bind next) := by
  intro input entered called
  rcases mem_calls_bind.mp called with early | ⟨value, rest, run, late⟩
  · contradiction
  · have inside := (calls_suffix slices (next value) rest entered late).length_le
    exact .inl (Nat.lt_of_le_of_lt inside (consumes input value rest run))

theorem bind (descends : Descends beside rules first)
    (others : ∀ value, Descends beside rules (next value)) :
    Descends beside rules (first.bind next) := by
  intro input entered called
  rcases mem_calls_bind.mp called with early | ⟨value, rest, run, late⟩
  · exact descends input entered early
  · have left := ((run_slices slices first).matched_suffix run).length_le
    have lower := others value rest entered late
    exact lower.imp_left fun shorter => Nat.lt_of_lt_of_le shorter left

theorem many (descends : Descends beside rules first) : Descends beside rules first.many := by
  intro input entered called
  obtain ⟨round, member, inside⟩ := List.mem_flatMap.mp called
  have behind := (rounds_suffix (run_slices slices first) input round member).length_le
  have lower := descends round entered inside
  exact lower.imp_left fun shorter => Nat.lt_of_lt_of_le shorter behind

theorem terminatedBy {closing : Body ι α γ} (descends : Descends beside rules first)
    (closes : Descends beside rules closing) :
    Descends beside rules (Body.terminatedBy first closing) :=
  bind slices descends fun _ => bind slices closes fun _ => basic _ _

end Descends

end Body

end Descent
