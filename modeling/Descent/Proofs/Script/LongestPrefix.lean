import Descent.Proofs.Parser.Reach
import Descent.Proofs.Script.Recognition

/-!
Where a script goes wrong. Main statement: the offset of a syntax error is the width of the longest
prefix of the source that is a script, and the statements of that prefix are those that were parsed
before the error. A prefix that is a script ends in a sign, so its tokens are tokens of the whole
source, and the repetition of statements gets at least as far as they go.
-/

namespace Descent.Script

open Descent.Parser Text

variable {place middle rest : List Char}

/-- Statements, and the rules that can end one, have a sign as their last token. -/
def Phrase.EndsInSign : Phrase → List Token → Prop
  | .rule .block, tokens | .rule .conditional, tokens | .rule .definition, tokens
  | .rule .statement, tokens => ∃ front char, tokens = front ++ [.sign char]
  | .statements, tokens => ∀ token ∈ tokens.getLast?, token.isWordlike = false
  | _, _ => True

theorem ends_in_sign {phrase : Phrase} {tokens : List Token} {trees : List Tree}
    (derives : Derives phrase tokens trees) : phrase.EndsInSign tokens := by
  induction derives with
  | block inner ih => exact ⟨_, _, rfl⟩
  | statementAssignment inner ih => exact ⟨_, _, rfl⟩
  | statementClosed inner ih => exact ⟨_, _, rfl⟩
  | statementSum inner ih => exact ⟨_, _, rfl⟩
  | statementDefinition inner ih => exact ih
  | statementConditional inner ih => exact ih
  | @oneBranch condition consequence test body tested first ih ihFirst =>
      obtain ⟨front, char, rfl⟩ := ihFirst
      exact ⟨.word "if" :: .sign '(' :: condition ++ .sign ')' :: front, char, by simp⟩
  | @twoBranches condition consequence alternative test body other rule tested first kind second
      ih ihFirst ihSecond =>
      have branch : ∃ front char, alternative = front ++ [.sign char] := by
        simp only [List.mem_cons, List.not_mem_nil, or_false] at kind
        rcases kind with rfl | rfl
        · exact ihSecond
        · exact ihSecond
      obtain ⟨front, char, rfl⟩ := branch
      exact ⟨.word "if" :: .sign '(' :: condition ++ .sign ')' :: consequence ++
        .word "else" :: front, char, by simp⟩
  | @definition text parameters tokens names body proper listed inner ih ihInner =>
      obtain ⟨front, char, rfl⟩ := ihInner
      exact ⟨.word "fn" :: .word text :: .sign '(' :: parameters ++ .sign ')' :: front, char,
        by simp⟩
  | noStatement => simp [Phrase.EndsInSign]
  | @nextStatement tokens following tree trees first others ih ihOthers =>
      obtain ⟨front, char, rfl⟩ := ih
      intro token last
      rw [List.getLast?_append, Option.mem_def, Option.or_eq_some_iff] at last
      rcases last with final | ⟨-, final⟩
      · exact ihOthers token final
      · rw [List.getLast?_concat, Option.some.injEq] at final
        rw [← final]
        rfl
  | _ => trivial

theorem conditional_continues {first second : List Char} {test body : Tree}
    (opened : (keyword "if").Yields place "if" first)
    (tested : (parenthesized (parser .expression)).Yields first test second)
    (blocked : (parser .block).Yields second body middle)
    (continued : (optional (precededBy (keyword "else")
      (parser .conditional <|> parser .block))).Reaches middle rest) :
    (parser .conditional).Reaches place rest := by
  rw [parser_eq]
  exact opened.bind_reaches (tested.bind_reaches (blocked.bind_reaches
    (continued.bind fun _ left => pure_reaches _ left)))

/-- A conditional that something in the text goes on with still matches. -/
theorem conditional_reaches {tokens : List Token} {tree : Tree}
    (phrase : Rule.conditional.Language tokens tree) :
    ∀ place rest, lexicon.Reads place tokens rest →
      (parser .conditional).Reaches place rest := by
  unfold Rule.Language at phrase
  generalize entered : Phrase.rule .conditional = phrase', shown : [tree] = trees at phrase
  induction phrase generalizing tree with
  | oneBranch tested first ih ihFirst =>
      intro place rest reads
      obtain ⟨start, body, opened, test, blocked⟩ :=
        conditional_front reads (parses_of_derives tested) (parses_of_derives first)
      have slices := preceded_by_slices (keyword_slices "else")
        (or_else_slices (parser_slices .conditional) (parser_slices .block))
      exact conditional_continues opened test blocked (optional_reaches slices rest)
  | twoBranches tested first kind second ih ihFirst ihSecond =>
      intro place rest reads
      obtain ⟨middle, front, branch⟩ := reads.split
      obtain ⟨start, body, opened, test, blocked⟩ :=
        conditional_front front (parses_of_derives tested) (parses_of_derives first)
      obtain ⟨next, otherwise, other⟩ := branch.cons
      have branches : (parser .conditional <|> parser .block).Reaches next rest := by
        simp only [List.mem_cons, List.not_mem_nil, or_false] at kind
        rcases kind with rfl | rfl
        · exact (ihSecond rfl rfl next rest other).or_else_first
        · obtain ⟨_, ⟨⟩, parsed⟩ := parses_of_derives second next rest other
            (closes_of_complete rfl rest)
          exact (branch_yields (by simp) second other parsed).reaches
      have continued : (precededBy (keyword "else")
          (parser .conditional <|> parser .block)).Reaches middle rest :=
        (keyword_yields otherwise).bind_reaches branches
      exact conditional_continues opened test blocked continued.some
  | _ => cases entered

theorem statement_reaches {tokens : List Token} {tree : Tree}
    (phrase : Rule.statement.Language tokens tree) (reads : lexicon.Reads place tokens rest) :
    (parser .statement).Reaches place rest := by
  cases phrase with
  | statementDefinition inner =>
      obtain ⟨_, ⟨⟩, parsed⟩ :=
        parses_of_derives inner place rest reads (closes_of_complete rfl rest)
      exact (statement_definition parsed).reaches
  | statementAssignment inner =>
      obtain ⟨middle, reads, closed⟩ := reads.split
      obtain ⟨_, ⟨⟩, parsed⟩ :=
        parses_of_derives inner place middle reads (closes_of_reads closed (by decide))
      exact (statement_assignment inner reads parsed closed).reaches
  | statementConditional inner =>
      obtain ⟨undefined, unassigned⟩ := earlier_refuse inner reads
      have parsed := conditional_reaches inner place rest reads
      have slices : semicolon.Slices := symbol_slices _
      have ended : (terminatedBy (parser .conditional) (optional semicolon)).Reaches place rest :=
        parsed.bind fun _ left =>
          (optional_reaches slices left).bind fun _ last => pure_reaches _ last
      rw [statement_eq]
      exact .or_else_second undefined (.or_else_second unassigned ended.or_else_first)
  | statementClosed inner =>
      obtain ⟨middle, reads, closed⟩ := reads.split
      obtain ⟨_, ⟨⟩, parsed⟩ :=
        parses_of_derives inner place middle reads (closes_of_reads closed (by decide))
      have ended := symbol_yields ';' (by decide) closed
      exact (statement_conditional inner reads parsed ended.some).reaches
  | statementSum inner =>
      obtain ⟨middle, reads, closed⟩ := reads.split
      obtain ⟨_, ⟨⟩, parsed⟩ :=
        parses_of_derives inner place middle reads (closes_of_reads closed (by decide))
      exact (statement_sum inner reads parsed closed).reaches

theorem statements_reach {tokens : List Token} {trees : List Tree}
    (phrases : Derives .statements tokens trees) :
    ∀ place rest, lexicon.Reads place tokens rest →
      (many (parser .statement)).Reaches place rest := by
  generalize listed : Phrase.statements = phrase at phrases
  induction phrases with
  | noStatement =>
      intro place rest reads input same
      exact many_reaches (parser_slices _) rest input (same.trans reads.same_place)
  | @nextStatement tokens following tree trees first others ih ihOthers =>
      intro place rest reads
      obtain ⟨middle, front, back⟩ := reads.split
      obtain ⟨token, more, rfl, -⟩ := rule_starts first
      cases others with
      | noStatement =>
          -- nothing is derived after this statement, so the text may go on with it
          have reached := (statement_reaches first front).many_first (parser_slices _) front.shorter
          intro input same
          obtain ⟨values, last, run, beyond⟩ := reached input same
          exact ⟨values, last, run, back.same_place ▸ beyond⟩
      | nextStatement second further =>
          have closes : (Phrase.rule .statement).Closes middle :=
            next_statement_closes second back
          obtain ⟨_, ⟨⟩, parsed⟩ := parses_of_derives first place middle front closes
          exact (ihOthers rfl middle rest back).many_after (parser_slices _) front.shorter parsed
  | _ => cases listed

/-- The error is at what the statements leave over, from its first character on that is not a
space. -/
theorem parse_program_error {source : List Char} {error : SyntaxError}
    (failed : parseProgram source = .error error) :
    ∃ front, source = front ++ trim (advance (parser .statement) source).2 ∧
      byteLength front = error.offset := by
  rw [parse_program_eq] at failed
  split at failed
  · contradiction
  · cases failed
    have left := advance_suffix (parser_slices .statement) source
    obtain ⟨front, whole⟩ := (trim_suffix _).trans left
    have width := congrArg byteLength whole
    rw [byte_length_append] at width
    exact ⟨front, whole.symm, by simp only; omega⟩

/-- A script that is written in front of another text is read up to that text. -/
theorem script_reads_before {front : List Char} {trees : List Tree}
    (parsed : parseProgram front = .ok trees) (back : List Char) :
    ∃ tokens, lexicon.Reads (front ++ back) tokens back ∧ Derives .statements tokens trees := by
  obtain ⟨tokens, reads, phrases⟩ := derives_of_parse_program parsed
  exact ⟨tokens, Lexicon.reads_append reads rfl (ends_in_sign phrases) back, phrases⟩

/-- A prefix that is a script does not reach beyond the statements of the whole source. -/
theorem script_prefix_reaches {front : List Char} {trees : List Tree}
    (parsed : parseProgram front = .ok trees) (back : List Char) :
    trim (advance (parser .statement) (front ++ back)).2 <:+ trim back := by
  obtain ⟨tokens, whole, phrases⟩ := script_reads_before parsed back
  obtain ⟨values, last, run, beyond⟩ := statements_reach phrases _ back whole _ rfl
  rw [many_matched.mp run]
  exact beyond

theorem empty_script : parseProgram [] = .ok [] :=
  parse_program_of_derives (.refl []) .noStatement

theorem error_ends_longest_script {source : List Char} {error : SyntaxError}
    (failed : parseProgram source = .error error) :
    parseProgram [] = .ok [] ∧ ∃ front trees rest, front <+: source ∧
      byteLength front = error.offset ∧ parseProgram front = .ok trees ∧
      many (parser .statement) source = .matched trees rest ∧
      ∀ other, other <+: source → (∃ found, parseProgram other = .ok found) →
        other <+: front := by
  refine ⟨empty_script, ?_⟩
  obtain ⟨front, split, width⟩ := parse_program_error failed
  have starts : front <+: source := ⟨_, split.symm⟩
  refine ⟨front, _, _, starts, width, ?_, rfl, ?_⟩
  · obtain ⟨tokens, reads, phrases⟩ :=
      statements_recognizes (parser_recognizes .statement) source _ _ rfl
    have ended := reads.congr_right (trim_trim _).symm
    have whole := ended.congr_left (congrArg trim split)
    exact parse_program_of_derives (Lexicon.reads_front whole (trim_trim _)) phrases
  · intro other begins given
    obtain ⟨found, parsed⟩ := given
    obtain ⟨back, whole⟩ := begins
    have beyond := script_prefix_reaches parsed back
    rw [whole] at beyond
    have kept := (beyond.trans (trim_suffix back)).length_le
    have lengths := congrArg List.length (whole.trans split)
    rw [List.length_append, List.length_append] at lengths
    exact List.prefix_of_prefix_length_le ⟨back, whole⟩ starts (by omega)

theorem error_behind_first_statement :
    parseProgram ['a', ';', ' ', 'b'] = .error ⟨3⟩ ∧
      ∃ front trees rest, front <+: ['a', ';', ' ', 'b'] ∧ byteLength front = 3 ∧
        parseProgram front = .ok trees ∧
        many (parser .statement) ['a', ';', ' ', 'b'] = .matched trees rest ∧
        ∀ other, other <+: ['a', ';', ' ', 'b'] → (∃ found, parseProgram other = .ok found) →
          other <+: front := by
  have stops : trim (advance (parser .statement) ['a', ';', ' ', 'b']).2 = ['b'] := by
    decide +kernel
  have failed : parseProgram ['a', ';', ' ', 'b'] = .error ⟨3⟩ := by
    rw [parse_program_eq, stops]
    rfl
  exact ⟨failed, (error_ends_longest_script failed).2⟩

end Descent.Script
