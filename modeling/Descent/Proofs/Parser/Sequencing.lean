import Descent.Proofs.Parser.Matching

/-!
The laws of sequencing. Parsers are a lawful monad, and all ways to run parsers in order are binds, which
differ in the values that they keep. Main statement: a row of parsers of any length is a nest of binds, so
a row can be nested in another one and flattened again, and a parser that keeps one of several values is a
row with a selection behind it. This holds of whole outcomes: a row fails where the first of its parsers
that does not match fails.
-/

namespace Descent.Parser

variable {α β γ ρ τ : Type} {input stop : List Char}

theorem map_identity (parser : Parser α) : id <$> parser = parser := by
  funext input
  rw [map_apply]
  cases parser input with
  | matched value rest => rfl
  | failed place => rfl

theorem bind_bind (parser : Parser α) (next : α → Parser β) (last : β → Parser γ) :
    ((parser >>= next) >>= last) = (parser >>= fun value => next value >>= last) := by
  funext input
  simp only [bind_apply]
  cases parser input with
  | matched value rest => rfl
  | failed place => rfl

instance : LawfulMonad Parser := LawfulMonad.mk' Parser map_identity (fun _ _ => rfl) bind_bind

theorem bind_failed {parser : Parser α} {next : α → Parser β} :
    (parser >>= next) input = .failed stop ↔ parser input = .failed stop ∨
      ∃ value rest, parser input = .matched value rest ∧ next value rest = .failed stop := by
  rw [bind_apply]
  cases parser input with
  | matched value rest => simp only [Outcome.and_then_matched, Outcome.matched.injEq]; grind
  | failed place => simp

/-! Rows of different parsers. -/

theorem sequence_single (parser : Parser α) : Parser.sequence parser = parser := rfl

theorem sequence_cons [Row ρ τ] (parser : Parser α) (others : ρ) :
    Parser.sequence (parser, others) =
      parser >>= fun value => Parser.sequence others >>= fun values => pure (value, values) := rfl

/-- What follows a row can be bound to the last parser in it. -/
theorem sequence_bind [Row ρ τ] (parser : Parser α) (others : ρ) (next : α × τ → Parser γ) :
    (Parser.sequence (parser, others) >>= next) =
      parser >>= fun value => Parser.sequence others >>= fun values => next (value, values) := by
  simp only [sequence_cons, bind_assoc, pure_bind]

theorem map_sequence [Row ρ τ] (f : α × τ → γ) (parser : Parser α) (others : ρ) :
    f <$> Parser.sequence (parser, others) =
      parser >>= fun value => Parser.sequence others >>= fun values => pure (f (value, values)) := by
  rw [map_eq_pure_bind, sequence_bind]

/-- The first two parsers of a row as one parser. -/
theorem sequence_grouped [Row ρ τ] (first : Parser α) (second : Parser β) (others : ρ) :
    Parser.sequence (first, second, others) =
      (fun values => (values.1.1, values.1.2, values.2)) <$>
        Parser.sequence (Parser.sequence (first, second), others) := by
  rw [map_sequence, sequence_bind, sequence_cons]
  simp only [sequence_bind, sequence_single]

/-- One or more parsers in a tuple, with values of the types `α` and `others`: a tuple of three is
`Tuple α [β, γ]`. -/
def Tuple (α : Type) : List Type → Type
  | [] => Parser α
  | β :: others => Parser α × Tuple β others

/-- What the parsers in a tuple yield. -/
def Values (α : Type) : List Type → Type
  | [] => α
  | β :: others => α × Values β others

instance tupleRow : (α : Type) → (others : List Type) → Row (Tuple α others) (Values α others)
  | α, [] => inferInstanceAs (Row (Parser α) α)
  | α, β :: others =>
      have := tupleRow β others
      inferInstanceAs (Row (Parser α × Tuple β others) (α × Values β others))

/-- One bind inside the other in the order of a tuple, with `next` for all values in the middle. -/
def nest : (α : Type) → (others : List Type) → Tuple α others → (Values α others → Parser γ) → Parser γ
  | _, [], parser, next => parser >>= next
  | _, β :: others, (parser, more), next =>
      parser >>= fun value => nest β others more fun values => next (value, values)

theorem sequence_bind_eq_nest (α : Type) (others : List Type) (parsers : Tuple α others)
    (next : Values α others → Parser γ) :
    (Parser.sequence parsers >>= next) = nest α others parsers next := by
  induction others generalizing α with
  | nil => rfl
  | cons β others ih =>
      obtain ⟨parser, more⟩ := parsers
      calc (Parser.sequence (parser, more) >>= next)
        _ = parser >>= fun value => Parser.sequence more >>= fun values => next (value, values) :=
            sequence_bind parser more next
        _ = nest α (β :: others) (parser, more) next := by simp only [ih, nest]

theorem sequence_eq_nest (α : Type) (others : List Type) (parsers : Tuple α others) :
    Parser.sequence parsers = nest α others parsers pure := by
  rw [← sequence_bind_eq_nest, bind_pure]

example (first : Parser α) (second : Parser β) (third : Parser γ) :
    @Parser.sequence _ _ (tupleRow α [β, γ]) (first, second, third) =
        Parser.sequence (first, second, third) ∧
      nest α [β, γ] (first, second, third) pure =
        first >>= fun value => second >>= fun other => third >>= fun last =>
          pure (value, other, last) := ⟨rfl, rfl⟩

theorem apply_eq_map_sequence (function : Parser (α → β)) (argument : Parser α) :
    function <*> argument =
      (fun pair => pair.1 pair.2) <$> Parser.sequence (function, argument) := by
  rw [seq_eq_bind_map, map_sequence]
  simp only [sequence_single, map_eq_pure_bind]

theorem preceded_by_eq_map_sequence (opening : Parser β) (parser : Parser α) :
    precededBy opening parser = Prod.snd <$> Parser.sequence (opening, parser) := by
  simp only [map_sequence, sequence_single, bind_pure, precededBy]

theorem terminated_by_eq_map_sequence (parser : Parser α) (closing : Parser β) :
    terminatedBy parser closing = Prod.fst <$> Parser.sequence (parser, closing) := by
  simp only [map_sequence, sequence_single, terminatedBy]

theorem between_eq_map_sequence (opening : Parser β) (parser : Parser α) (closing : Parser γ) :
    between opening closing parser =
      (fun values => values.2.1) <$> Parser.sequence (opening, parser, closing) := by
  simp only [map_sequence, sequence_bind, sequence_single, between, precededBy, terminatedBy]

/-! Lists of parsers of one type. -/

theorem sequence_list_nil : Parser.sequence ([] : List (Parser α)) = pure [] := rfl

theorem sequence_list_cons (parser : Parser α) (parsers : List (Parser α)) :
    Parser.sequence (parser :: parsers) =
      parser >>= fun value => Parser.sequence parsers >>= fun values => pure (value :: values) := rfl

theorem sequence_append (earlier later : List (Parser α)) :
    Parser.sequence (earlier ++ later) = Parser.sequence earlier >>= fun values =>
      Parser.sequence later >>= fun others => pure (values ++ others) := by
  induction earlier with
  | nil =>
      rw [List.nil_append, sequence_list_nil, pure_bind]
      simp only [List.nil_append, bind_pure]
  | cons parser earlier ih =>
      rw [List.cons_append, sequence_list_cons, ih]
      simp only [sequence_list_cons, bind_assoc, pure_bind, List.cons_append]

theorem sequence_flatten (groups : List (List (Parser α))) :
    Parser.sequence groups.flatten =
      List.flatten <$> Parser.sequence (groups.map fun group => Parser.sequence group) := by
  induction groups with
  | nil => rfl
  | cons group groups ih =>
      rw [List.flatten_cons, sequence_append, ih, List.map_cons, sequence_list_cons]
      simp only [map_eq_pure_bind, bind_assoc, pure_bind, List.flatten_cons]

/-- A row fails where one of its parsers fails, behind the matches of all parsers before it. -/
theorem sequence_failed {parsers : List (Parser α)} :
    Parser.sequence parsers input = .failed stop ↔
      ∃ earlier parser later values rest, parsers = earlier ++ parser :: later ∧
        Parser.sequence earlier input = .matched values rest ∧ parser rest = .failed stop := by
  constructor
  · intro failed
    induction parsers generalizing input with
    | nil =>
        rw [sequence_list_nil, pure_apply] at failed
        contradiction
    | cons parser parsers ih =>
        rw [sequence_list_cons] at failed
        rcases bind_failed.mp failed with here | ⟨value, rest, found, behind⟩
        · exact ⟨[], parser, parsers, [], input, rfl, rfl, here⟩
        · rcases bind_failed.mp behind with inside | ⟨values, last, -, ended⟩
          · obtain ⟨earlier, next, later, values, last, rfl, passed, stopped⟩ := ih inside
            refine ⟨parser :: earlier, next, later, value :: values, last, rfl, ?_, stopped⟩
            exact bind_matched.mpr ⟨value, rest, found, bind_matched.mpr ⟨values, last, passed, rfl⟩⟩
          · contradiction
  · rintro ⟨earlier, parser, later, values, rest, rfl, passed, stopped⟩
    rw [sequence_append]
    exact bind_failed.mpr (.inr ⟨values, rest, passed,
      bind_failed.mpr (.inl (bind_failed.mpr (.inl stopped)))⟩)

theorem sequencing_is_one_monad (α β γ : Type) :
    (∀ (value : α) (next : α → Parser β), (pure value >>= next) = next value) ∧
    (∀ parser : Parser α, (parser >>= pure) = parser) ∧
    (∀ (parser : Parser α) (next : α → Parser β) (last : β → Parser γ),
      ((parser >>= next) >>= last) = (parser >>= fun value => next value >>= last)) ∧
    (∀ (f : α → β) (parser : Parser α), f <$> parser = parser >>= fun value => pure (f value)) ∧
    (∀ (others : List Type) (parsers : Tuple α others),
      Parser.sequence parsers = nest α others parsers pure) ∧
    (∀ (function : Parser (α → β)) (argument : Parser α),
      function <*> argument =
        (fun pair => pair.1 pair.2) <$> Parser.sequence (function, argument)) ∧
    (∀ (opening : Parser β) (parser : Parser α) (closing : Parser γ),
      precededBy opening parser = Prod.snd <$> Parser.sequence (opening, parser) ∧
      terminatedBy parser closing = Prod.fst <$> Parser.sequence (parser, closing) ∧
      between opening closing parser =
        (fun values => values.2.1) <$> Parser.sequence (opening, parser, closing)) ∧
    (∀ (first : Parser α) (second : Parser β) (third : Parser γ),
      Parser.sequence (first, second, third) =
        (fun values => (values.1.1, values.1.2, values.2)) <$>
          Parser.sequence (Parser.sequence (first, second), third)) ∧
    (∀ groups : List (List (Parser α)),
      Parser.sequence groups.flatten =
        List.flatten <$> Parser.sequence (groups.map fun group => Parser.sequence group)) ∧
    ∀ (parsers : List (Parser α)) input stop,
      Parser.sequence parsers input = .failed stop ↔
        ∃ earlier parser later values rest, parsers = earlier ++ parser :: later ∧
          Parser.sequence earlier input = .matched values rest ∧ parser rest = .failed stop := by
  refine ⟨pure_bind, bind_pure, bind_assoc, map_eq_pure_bind, sequence_eq_nest α,
    apply_eq_map_sequence, ?_, sequence_grouped, sequence_flatten, ?_⟩
  · intro opening parser closing
    exact ⟨preceded_by_eq_map_sequence opening parser, terminated_by_eq_map_sequence parser closing,
      between_eq_map_sequence opening parser closing⟩
  · intro parsers input stop
    exact sequence_failed

end Descent.Parser
