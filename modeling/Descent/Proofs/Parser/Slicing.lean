import Descent.Parser.Listing
import Descent.Proofs.Parser.Scanning
import Mathlib.Data.List.Infix

/-!
Parsers only cut a part off the front of their input: what they leave over, after a match or at a
mismatch, is a suffix of it. Every primitive does so, and every combinator keeps it.
-/

namespace Descent.Parser

variable {α β γ : Type}

/-- Whatever the outcome, the rest is a suffix of the input. -/
def Slices (parser : Parser α) : Prop := ∀ input, (parser input).rest <:+ input

theorem Slices.matched_suffix {parser : Parser α} (slices : parser.Slices) {input rest : List Char}
    {value : α} (run : parser input = .matched value rest) : rest <:+ input := by
  have suffix := slices input
  rw [run] at suffix
  exact suffix

theorem pure_slices (value : α) : (pure value : Parser α).Slices :=
  fun input => List.suffix_refl input

theorem fail_slices : (fail : Parser α).Slices := fun input => List.suffix_refl input

theorem any_char_slices : anyChar.Slices := by
  intro input
  cases input with
  | nil => exact List.suffix_refl _
  | cons char rest => exact List.suffix_cons char rest

theorem satisfy_slices (test : Char → Bool) : (satisfy test).Slices := by
  intro input
  cases input with
  | nil => exact List.suffix_refl _
  | cons char rest =>
      cases passes : test char with
      | false => simp [satisfy, passes]
      | true => simp [satisfy, passes, List.suffix_cons]

theorem literal_slices (text : String) : (literal text).Slices := by
  intro input
  cases found : text.toList.isPrefixOf? input with
  | none => simp [literal, found]
  | some rest => simpa [literal, found] using ⟨_, List.append_eq_of_isPrefixOf?_eq_some found⟩

theorem end_of_input_slices : endOfInput.Slices := by
  intro input
  cases input <;> exact List.suffix_refl _

theorem map_slices (f : α → β) {parser : Parser α} (slices : parser.Slices) :
    (f <$> parser).Slices := by
  intro input
  have suffix := slices input
  rw [map_apply]
  cases run : parser input with
  | matched value rest => rwa [run] at suffix
  | failed rest => rwa [run] at suffix

theorem bind_slices {parser : Parser α} {next : α → Parser β} (slices : parser.Slices)
    (others : ∀ value, (next value).Slices) : (parser >>= next).Slices := by
  intro input
  have suffix := slices input
  rw [bind_apply]
  cases run : parser input with
  | matched value rest =>
      rw [run] at suffix
      exact (others value rest).trans suffix
  | failed rest => rwa [run] at suffix

theorem seq_slices {function : Parser (α → β)} {argument : Parser α} (slices : function.Slices)
    (others : argument.Slices) : (function <*> argument).Slices :=
  bind_slices slices fun f => map_slices f others

theorem or_else_slices {first second : Parser α} (slices : first.Slices)
    (other : second.Slices) : (first <|> second).Slices := by
  intro input
  have suffix := slices input
  rw [or_else_apply]
  cases run : first input with
  | matched value rest => rwa [run] at suffix
  | failed rest => exact other input

theorem choice_slices {parsers : List (Parser α)}
    (slices : ∀ parser ∈ parsers, parser.Slices) : (choice parsers).Slices := by
  intro input
  have fold (outcome : Outcome α) (suffix : outcome.rest <:+ input) :
      (parsers.foldl (fun outcome parser => outcome.orElse fun _ => parser input)
        outcome).rest <:+ input := by
    induction parsers generalizing outcome with
    | nil => exact suffix
    | cons parser parsers ih =>
        have others : ∀ other ∈ parsers, other.Slices :=
          fun other member => slices other (List.mem_cons_of_mem _ member)
        cases outcome with
        | matched value rest => exact ih others _ suffix
        | failed rest => exact ih others _ (slices parser List.mem_cons_self input)
  exact fold (.failed input) (List.suffix_refl input)

theorem optional_slices {parser : Parser α} (slices : parser.Slices) :
    (optional parser).Slices := by
  intro input
  have suffix := slices input
  cases run : parser input with
  | matched value rest => simpa [optional, run] using suffix
  | failed rest => simp [optional, run]

theorem advance_suffix {parser : Parser α} (slices : parser.Slices) (input : List Char) :
    (advance parser input).2 <:+ input := by
  fun_induction advance parser input with
  | case1 input value rest run shorter following ih =>
      exact ih.trans (slices.matched_suffix run)
  | case2 input value rest run longer => exact List.suffix_refl input
  | case3 input rest run => exact List.suffix_refl input

theorem many_slices {parser : Parser α} (slices : parser.Slices) : (many parser).Slices :=
  fun input => advance_suffix slices input

theorem many1_slices {parser : Parser α} (slices : parser.Slices) : (many1 parser).Slices :=
  bind_slices slices fun _ => bind_slices (many_slices slices) fun _ => pure_slices _

theorem skip_many_slices {parser : Parser α} (slices : parser.Slices) :
    (skipMany parser).Slices := fun input => advance_suffix slices input

theorem recognize_slices {parser : Parser α} (slices : parser.Slices) :
    (recognize parser).Slices := by
  intro input
  have suffix := slices input
  cases run : parser input with
  | matched value rest => simpa [recognize, run] using suffix
  | failed rest => simpa [recognize, run] using suffix

theorem verify_slices {parser : Parser α} (slices : parser.Slices) (test : α → Bool) :
    (verify parser test).Slices := by
  intro input
  have suffix := slices input
  cases run : parser input with
  | failed rest => simpa [verify, run] using suffix
  | matched value rest =>
      cases passes : test value with
      | true => simpa [verify, run, passes] using suffix
      | false => simp [verify, run, passes]

theorem preceded_by_slices {opening : Parser β} {parser : Parser α}
    (opens : opening.Slices) (slices : parser.Slices) : (precededBy opening parser).Slices :=
  bind_slices opens fun _ => slices

theorem terminated_by_slices {parser : Parser α} {closing : Parser β}
    (slices : parser.Slices) (closes : closing.Slices) : (terminatedBy parser closing).Slices :=
  bind_slices slices fun value => bind_slices closes fun _ => pure_slices value

theorem between_slices {opening : Parser β} {closing : Parser γ} {parser : Parser α}
    (opens : opening.Slices) (closes : closing.Slices) (slices : parser.Slices) :
    (between opening closing parser).Slices :=
  preceded_by_slices opens (terminated_by_slices slices closes)

theorem row_slices {ρ τ : Type} [Row ρ τ] {first : Parser α} {others : ρ} (slices : first.Slices)
    (more : (Parser.sequence others).Slices) : (Parser.sequence (first, others)).Slices :=
  bind_slices slices fun _ => bind_slices more fun _ => pure_slices _

theorem pair_slices {first : Parser α} {second : Parser β} (slices : first.Slices)
    (other : second.Slices) : (Parser.sequence (first, second)).Slices := row_slices slices other

theorem list_slices {parsers : List (Parser α)} (slices : ∀ parser ∈ parsers, parser.Slices) :
    (Parser.sequence parsers).Slices := by
  induction parsers with
  | nil => exact pure_slices _
  | cons parser parsers ih =>
      obtain ⟨first, others⟩ := List.forall_mem_cons.mp slices
      exact bind_slices first fun _ => bind_slices (ih others) fun _ => pure_slices _

theorem skip_space_slices : skipSpace.Slices := skip_many_slices (satisfy_slices _)

theorem token_slices {parser : Parser α} (slices : parser.Slices) : (token parser).Slices :=
  between_slices skip_space_slices skip_space_slices slices

theorem symbol_slices (text : String) : (symbol text).Slices :=
  token_slices (literal_slices text)

theorem identifier_slices : identifier.Slices :=
  recognize_slices (pair_slices (satisfy_slices _) (skip_many_slices (satisfy_slices _)))

theorem magnitude_slices (bound : Nat) : (magnitude bound).Slices := by
  intro input
  rw [magnitude_apply]
  split
  · exact List.dropWhile_suffix _
  · exact List.suffix_refl input

theorem separated_slices {parser : Parser α} {separator : Parser β}
    (slices : parser.Slices) (separates : separator.Slices) :
    (separated parser separator).Slices :=
  bind_slices slices fun _ =>
    bind_slices (many_slices (preceded_by_slices separates slices)) fun _ => pure_slices _

theorem comma_separated_slices {item : Parser α} (slices : item.Slices) :
    (commaSeparated item).Slices := separated_slices slices (symbol_slices _)

theorem bracketed_slices {item : Parser α} (slices : item.Slices) : (bracketed item).Slices :=
  between_slices (symbol_slices _) (symbol_slices _) (comma_separated_slices slices)

theorem nat_slices (type : IntegerType) : (nat type).Slices := magnitude_slices _

theorem int_slices (type : IntegerType) : (int type).Slices := by
  have converted (bound : Nat) :
      (magnitude bound >>= fun value => pure (value : Int)).Slices :=
    bind_slices (magnitude_slices bound) fun _ => pure_slices _
  exact or_else_slices (map_slices _ (converted _))
    (preceded_by_slices (satisfy_slices _) (map_slices _ (converted _)))

theorem word_slices : word.Slices :=
  token_slices (recognize_slices
    (pair_slices (satisfy_slices _) (skip_many_slices (satisfy_slices _))))

theorem assignment_slices : assignment.Slices :=
  bind_slices identifier_slices fun _ => bind_slices skip_space_slices fun _ =>
    bind_slices (satisfy_slices _) fun _ => bind_slices skip_space_slices fun _ =>
      bind_slices identifier_slices fun _ => pure_slices _

end Descent.Parser
