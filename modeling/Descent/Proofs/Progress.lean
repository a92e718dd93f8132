import Descent.Proofs.Evaluation
import Descent.Proofs.Sentences

/-!
Progress. A match of a rule reads the tokens of a phrase, and no phrase of a rule is empty, so the match
takes something off the input that is not a space. For a parser that consumes, a repetition has no empty
match to drop. Main statement: no repetition in either grammar ends with an empty match. It ends where
what is repeated fails, and it keeps the values of all matches before.
-/

namespace Descent

open Descent.Parser Text

namespace Parser

variable {α : Type} {parser : Parser α}

/-- Every match takes a character off the input that is not a space. -/
def Progresses (parser : Parser α) : Prop :=
  ∀ input value rest, parser input = .matched value rest →
    ∃ taken, input = taken ++ rest ∧ ∃ char ∈ taken, isSpace char = false

/-- From this input on, a repetition does not come to an empty match. -/
structure KeepsMatches (parser : Parser α) (input : List Char) : Prop where
  advances : ∀ round ∈ rounds parser input, ∀ value rest,
    parser round = .matched value rest → rest.length < round.length
  ends : ∃ last stop,
    many parser input =
      .matched ((rounds parser input).filterMap fun round => (parser round).value?) last ∧
    parser last = .failed stop

theorem visible_of_shorter {taken rest : List Char}
    (shorter : (trim rest).length < (trim (taken ++ rest)).length) :
    ∃ char ∈ taken, isSpace char = false := by
  by_contra blank
  have spaces : ∀ char ∈ taken, isSpace char = true := by
    intro char member
    by_contra visible
    exact blank ⟨char, member, Bool.eq_false_iff.mpr visible⟩
  rw [trim_append_of_spaces (trim_eq_nil.mpr spaces)] at shorter
  exact absurd shorter (Nat.lt_irrefl _)

theorem progresses_of_reads {lexicon : Lexicon} (slices : parser.Slices)
    (reads : ∀ input value rest, parser input = .matched value rest →
      ∃ token tokens, lexicon.Reads input (token :: tokens) rest) : parser.Progresses := by
  intro input value rest run
  obtain ⟨token, tokens, phrase⟩ := reads input value rest run
  obtain ⟨taken, rfl⟩ := slices.matched_suffix run
  exact ⟨taken, rfl, visible_of_shorter phrase.shorter⟩

theorem Progresses.consumes (progresses : parser.Progresses) : parser.Consumes := by
  intro input value rest run
  obtain ⟨taken, rfl, char, member, -⟩ := progresses input value rest run
  have some := List.length_pos_of_mem member
  rw [List.length_append]
  omega

theorem advance_keeps (consumes : parser.Consumes) (input : List Char) :
    (advance parser input).1 =
        (rounds parser input).filterMap (fun round => (parser round).value?) ∧
      ∃ stop, parser (advance parser input).2 = .failed stop := by
  fun_induction advance parser input with
  | case1 input value rest run shorter following ih =>
      obtain ⟨values, stops⟩ := ih
      refine ⟨?_, stops⟩
      rw [Body.rounds_matched run shorter, List.filterMap_cons, run, ← values]
      rfl
  | case2 input value rest run longer => exact absurd (consumes input value rest run) longer
  | case3 input stop run =>
      refine ⟨?_, stop, run⟩
      rw [rounds, run]
      simp only [List.filterMap_cons, run, Outcome.value?, List.filterMap_nil]

theorem keeps_matches (consumes : parser.Consumes) (input : List Char) :
    parser.KeepsMatches input where
  advances round _ := consumes round
  ends := by
    obtain ⟨values, stop, failed⟩ := advance_keeps consumes input
    exact ⟨_, stop, many_matched.mpr (Prod.ext values rfl), failed⟩

end Parser

namespace Body

variable {ι α β γ δ : Type} {rules : ι → Parser α}

/-- All repetitions in the body keep their matches, whatever has been read before them. -/
def KeepsMatches (rules : ι → Parser α) {β : Type} : Body ι α β → Prop
  | basic _ _ => True
  | call _ => True
  | bind first next => first.KeepsMatches rules ∧ ∀ value, (next value).KeepsMatches rules
  | orElse first second => first.KeepsMatches rules ∧ second.KeepsMatches rules
  | optional inner => inner.KeepsMatches rules
  | many inner => inner.KeepsMatches rules ∧ ∀ input, (inner.run rules).KeepsMatches input

namespace KeepsMatches

variable {inner second : Body ι α β} {next : β → Body ι α γ} {opening : Body ι α γ}
  {closing : Body ι α δ}

theorem basic (parser : Parser β) (slices : parser.Slices) :
    (Body.basic parser slices : Body ι α β).KeepsMatches rules := trivial

theorem call (rule : ι) : (Body.call rule : Body ι α α).KeepsMatches rules := trivial

theorem bind (keeps : inner.KeepsMatches rules) (others : ∀ value, (next value).KeepsMatches rules) :
    (inner.bind next).KeepsMatches rules := ⟨keeps, others⟩

theorem orElse (keeps : inner.KeepsMatches rules) (other : second.KeepsMatches rules) :
    (inner.orElse second).KeepsMatches rules := ⟨keeps, other⟩

theorem optional (keeps : inner.KeepsMatches rules) : inner.optional.KeepsMatches rules := keeps

/-- A repetition of what consumes something. -/
theorem many (keeps : inner.KeepsMatches rules) (consumes : (inner.run rules).Consumes) :
    inner.many.KeepsMatches rules := ⟨keeps, keeps_matches consumes⟩

theorem map (f : β → γ) (keeps : inner.KeepsMatches rules) : (inner.map f).KeepsMatches rules :=
  .bind keeps fun _ => .basic _ _

theorem terminatedBy (keeps : inner.KeepsMatches rules) (closes : closing.KeepsMatches rules) :
    (Body.terminatedBy inner closing).KeepsMatches rules :=
  .bind keeps fun _ => .bind closes fun _ => .basic _ _

theorem between (opens : opening.KeepsMatches rules) (closes : closing.KeepsMatches rules)
    (keeps : inner.KeepsMatches rules) : (Body.between opening closing inner).KeepsMatches rules :=
  .bind opens fun _ => keeps.terminatedBy closes

end KeepsMatches

end Body

namespace Script

theorem rule_progresses (rule : Rule) : (parser rule).Progresses := by
  apply progresses_of_reads (parser_slices rule)
  intro input tree rest run
  obtain ⟨tokens, reads, phrase⟩ := parser_recognizes rule input tree rest run
  obtain ⟨first, others, rfl, -⟩ := rule_starts phrase
  exact ⟨first, others, reads⟩

theorem variable_name_progresses : variableName.Progresses := by
  apply progresses_of_reads variable_name_slices
  intro input text rest run
  exact ⟨_, [], (variable_name_reads run).2⟩

theorem comma_item_consumes {α : Type} {item : Parser α} (slices : item.Slices) :
    (precededBy (symbol ",") item).Consumes :=
  bind_consumes (symbol_consumes ',') fun _ => slices

section Keeps

variable {rules : Rule → Parser Tree}

theorem parenthesized_keeps {β : Type} {inner : Body Rule Tree β}
    (keeps : inner.KeepsMatches rules) : (parenthesizedBody inner).KeepsMatches rules :=
  .between (.basic _ _) (.basic _ _) keeps

/-- What is repeated in a list starts with a comma. -/
theorem list_keeps (slices : ∀ rule, (rules rule).Slices) {β : Type} {item : Body Rule Tree β}
    (keeps : item.KeepsMatches rules) : (listBody item).KeepsMatches rules := by
  have another : (Body.precededBy (symbolBody ",") item).KeepsMatches rules :=
    .bind (.basic _ _) fun _ => keeps
  have consumes := comma_item_consumes (Body.run_slices slices item)
  have row : (item.separated (symbolBody ",")).KeepsMatches rules :=
    .bind keeps fun first => .map _ (another.many consumes)
  exact parenthesized_keeps row.optional

theorem chain_keeps (operand tail : Rule) (first second : String) :
    (chainBody operand tail first second).KeepsMatches rules := by
  refine .bind (.call operand) fun lhs => .bind (.optional ?_) fun continuation => .basic _ _
  exact .bind (.basic _ _) fun _ => .map _ (.call tail)

end Keeps

theorem statements_keep : (Body.many (.call .statement)).KeepsMatches parser :=
  .many (.call _) (rule_progresses .statement).consumes

theorem body_keeps (rule : Rule) : (body rule).KeepsMatches parser := by
  cases rule with
  | call =>
      have listed := list_keeps parser_slices (.call .expression)
      exact .bind (.basic _ _) fun name => .bind listed fun arguments => .basic _ _
  | factor =>
      have inner : (parenthesizedBody (.call .expression)).KeepsMatches parser :=
        parenthesized_keeps (.call _)
      exact .orElse inner (.orElse (.call _) (.basic _ _))
  | product => exact chain_keeps _ _ _ _
  | sum => exact chain_keeps _ _ _ _
  | block => exact .map _ (.between (.basic _ _) (.basic _ _) statements_keep)
  | conditional =>
      have condition : (parenthesizedBody (.call .expression)).KeepsMatches parser :=
        parenthesized_keeps (.call _)
      have alternative : elseBody.KeepsMatches parser :=
        .optional (.bind (.basic _ _) fun _ => .orElse (.call _) (.call _))
      refine .bind (.basic _ _) fun _ => .bind condition fun test => ?_
      exact .bind (.call _) fun consequence => .bind alternative fun _ => .basic _ _
  | expression => exact .orElse (.call _) (.call _)
  | assignment =>
      exact .bind (.basic _ _) fun name => .bind (.basic _ _) fun _ => .bind (.call _) fun value =>
        .basic _ _
  | definition =>
      have parameters := list_keeps parser_slices (.basic _ variable_name_slices)
      refine .bind (.basic _ _) fun _ => .bind (.basic _ _) fun name => ?_
      exact .bind parameters fun _ => .bind (.call _) fun inner => .basic _ _
  | statement =>
      refine .orElse (.call _) (.orElse ?_ (.orElse ?_ ?_))
      · exact .terminatedBy (.call _) (.basic _ _)
      · exact .terminatedBy (.call _) (.optional (.basic _ _))
      · exact .terminatedBy (.call _) (.basic _ _)

theorem program_keeps : programBody.KeepsMatches parser := statements_keep.terminatedBy (.basic _ _)

end Script

namespace Arithmetic

theorem rule_progresses (associativity : Associativity) (rule : Rule) :
    (parser associativity rule).Progresses := by
  apply progresses_of_reads (parser_slices associativity rule)
  intro input expr rest run
  obtain ⟨tokens, reads, first, others, derives, -⟩ :=
    parser_recognizes associativity rule input expr rest run
  obtain ⟨token, more, rfl⟩ := List.exists_cons_of_ne_nil (derives_ne_nil derives)
  exact ⟨token, more, reads⟩

/-- An operator with the operand behind it, as it is repeated in a chain that groups to the left. -/
theorem operator_operand_consumes (level : Bool) (operand : Rule) :
    ((linkBody level operand).run (parser .left)).Consumes :=
  bind_consumes (token_consumes (level_consumes level)) fun _ =>
    Body.run_slices (parser_slices .left) _

section Keeps

variable (rules : Rule → Parser Expr) (level : Bool)

theorem link_keeps (operand : Rule) : (linkBody level operand).KeepsMatches rules :=
  .bind (.basic _ _) fun _ => .map _ (.call operand)

theorem factor_keeps : factorBody.KeepsMatches rules :=
  .orElse (.between (.basic _ _) (.basic _ _) (.call _)) (.basic _ _)

theorem right_keeps : (rightBody level).KeepsMatches rules := by
  have link := link_keeps rules level (chainRule level)
  refine .bind (.basic _ _) fun _ => .bind (.call _) fun lhs => ?_
  exact .bind (.optional (link.terminatedBy (.basic _ _))) fun continuation => .basic _ _

theorem left_keeps : (leftBody level).KeepsMatches (parser .left) := by
  have link := link_keeps (parser .left) level (operandRule level)
  have consumes := operator_operand_consumes level (operandRule level)
  refine .bind (.basic _ _) fun _ => .bind (.call _) fun first => ?_
  exact .bind (link.many consumes) fun others => .bind (.basic _ _) fun _ => .basic _ _

end Keeps

theorem body_keeps (associativity : Associativity) (rule : Rule) :
    (body associativity rule).KeepsMatches (parser associativity) := by
  cases associativity with
  | right =>
      cases rule with
      | factor => exact factor_keeps _
      | term => exact right_keeps _ false
      | expr => exact right_keeps _ true
  | left =>
      cases rule with
      | factor => exact factor_keeps _
      | term => exact left_keeps false
      | expr => exact left_keeps true

end Arithmetic

/-- No rule of either grammar matches a blank text, and no repetition drops a match. -/
theorem rules_make_progress :
    (∀ rule, (Script.parser rule).Progresses) ∧ Script.variableName.Progresses ∧
    (∀ associativity rule, (Arithmetic.parser associativity rule).Progresses) ∧
    (∀ rule, (Script.body rule).run Script.parser = Script.parser rule ∧
      (Script.body rule).KeepsMatches Script.parser) ∧
    (Script.programBody.run Script.parser = Script.program ∧
      Script.programBody.KeepsMatches Script.parser) ∧
    (∀ associativity rule,
      (Arithmetic.body associativity rule).run (Arithmetic.parser associativity) =
        Arithmetic.parser associativity rule ∧
      (Arithmetic.body associativity rule).KeepsMatches (Arithmetic.parser associativity)) ∧
    ∀ input,
      (Script.parser .statement).KeepsMatches input ∧
      (precededBy (symbol ",") (Script.parser .expression)).KeepsMatches input ∧
      (precededBy (symbol ",") Script.variableName).KeepsMatches input ∧
      (∀ level, (Parser.sequence (token (Arithmetic.levelOperator level),
        Arithmetic.parser .left (Arithmetic.operandRule level))).KeepsMatches input) ∧
      ∀ test, (satisfy test).KeepsMatches input := by
  refine ⟨Script.rule_progresses, Script.variable_name_progresses, Arithmetic.rule_progresses,
    ?_, ⟨rfl, Script.program_keeps⟩, ?_, ?_⟩
  · intro rule
    exact ⟨(Script.grammar_written.parser_eq_run rule).symm, Script.body_keeps rule⟩
  · intro associativity rule
    exact ⟨((Arithmetic.grammar_written associativity).parser_eq_run rule).symm,
      Arithmetic.body_keeps associativity rule⟩
  · intro input
    have statement := (Script.rule_progresses .statement).consumes
    have argument := Script.comma_item_consumes (Script.parser_slices .expression)
    have parameter := Script.comma_item_consumes Script.variable_name_slices
    refine ⟨keeps_matches statement input, keeps_matches argument input,
      keeps_matches parameter input, ?_, ?_⟩
    · intro level
      exact keeps_matches
        (Arithmetic.operator_operand_consumes level (Arithmetic.operandRule level)) input
    · intro test
      exact keeps_matches (satisfy_consumes test) input

/-- The repetition in a block stops at its closing brace, where no statement starts. -/
theorem statements_of_block_are_kept :
    Script.parser .block "\x7b a; f(1); \x7d x".toList =
        .matched (.node "block" [.name "a", .node "call" [.name "f", .number 1]]) ['x'] ∧
      (∃ taken, "\x7b a; f(1); \x7d x".toList = taken ++ ['x'] ∧
        ∃ char ∈ taken, isSpace char = false) ∧
      rounds (Script.parser .statement) "a; f(1); \x7d x".toList =
        ["a; f(1); \x7d x".toList, "f(1); \x7d x".toList, "\x7d x".toList] ∧
      many (Script.parser .statement) "a; f(1); \x7d x".toList =
        .matched [.name "a", .node "call" [.name "f", .number 1]] "\x7d x".toList ∧
      ∃ stop, Script.parser .statement "\x7d x".toList = .failed stop := by
  obtain ⟨progresses, -, -, -, -, -, keeps⟩ := rules_make_progress
  have block : Script.parser .block "\x7b a; f(1); \x7d x".toList =
      .matched (.node "block" [.name "a", .node "call" [.name "f", .number 1]]) ['x'] := by
    decide +kernel
  have rounds : rounds (Script.parser .statement) "a; f(1); \x7d x".toList =
      ["a; f(1); \x7d x".toList, "f(1); \x7d x".toList, "\x7d x".toList] := by decide +kernel
  have statements : many (Script.parser .statement) "a; f(1); \x7d x".toList =
      .matched [.name "a", .node "call" [.name "f", .number 1]] "\x7d x".toList := by
    decide +kernel
  obtain ⟨last, stop, kept, failed⟩ := (keeps "a; f(1); \x7d x".toList).1.ends
  obtain ⟨-, rfl⟩ := Outcome.matched.inj (statements.symm.trans kept)
  exact ⟨block, progresses _ _ _ _ block, rounds, statements, stop, failed⟩

end Descent
