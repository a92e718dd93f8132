import Descent.Arithmetic.Derivation
import Descent.Proofs.Arithmetic.Unfolding
import Descent.Proofs.Parser.Alike

/-!
Chains of operands. Main statement: for either associativity, the rule of a level reads a chain of
its operands, as long as possible, and groups it. The recursive and the iterative rule fail at the
same places as the chain does, and differ from it only in the spaces that they leave behind.
-/

namespace Descent.Arithmetic

open Descent.Parser Text

/-- One more operator and operand. -/
def link (operand : Parser Expr) (operator : Parser Operator) : Parser (Operator × Expr) :=
  Parser.sequence (token operator, spaced operand)

/-- A first operand and as many operators with a right operand each as there are. -/
def chained (operand : Parser Expr) (operator : Parser Operator) :
    Parser (Expr × List (Operator × Expr)) :=
  Parser.sequence (spaced operand, many (link operand operator))

variable {operand tail : Parser Expr} {operator : Parser Operator}

theorem spaced_slices (slices : operand.Slices) : (spaced operand).Slices :=
  preceded_by_slices skip_space_slices slices

theorem link_consumes (slices : operand.Slices) (consumes : operator.Consumes) :
    (link operand operator).Consumes :=
  bind_consumes (token_consumes consumes) fun _ =>
    bind_slices (spaced_slices slices) fun _ => pure_slices _

theorem link_apply (input : List Char) :
    link operand operator input =
      (token operator input).andThen fun sign rest =>
        (operand (trim rest)).map fun right => (sign, right) := by
  rw [link, pair_apply]
  congr
  funext sign rest
  rw [spaced_apply]
  cases operand (trim rest) <;> rfl

theorem chained_apply (input : List Char) :
    chained operand operator input =
      (operand (trim input)).andThen fun first rest =>
        .matched (first, (advance (link operand operator) rest).1)
          (advance (link operand operator) rest).2 := by
  rw [chained, pair_apply, spaced_apply]
  rfl

theorem right_chain_apply (input : List Char) :
    rightChain operand operator tail input =
      (operand (trim input)).andThen fun lhs rest =>
        match Parser.sequence (token operator, tail) rest with
        | .matched (sign, rhs) last => .matched (.binary sign lhs rhs) (trim last)
        | .failed _ => .matched lhs rest := by
  rw [rightChain, bind_apply, skip_space_apply, Outcome.and_then_matched, bind_apply]
  congr
  funext lhs rest
  simp only [bind_apply, Parser.optional, terminatedBy]
  cases Parser.sequence (token operator, tail) rest with
  | failed stop => rfl
  | matched pair last =>
      simp only [Outcome.and_then_matched, skip_space_apply]
      rfl

/-- A match of a right chain is one of its operand alone, or goes on behind an operator. -/
theorem right_chain_matched {input rest : List Char} {expr : Expr}
    (run : rightChain operand operator tail input = .matched expr rest) :
    ∃ lhs left, operand (trim input) = .matched lhs left ∧
      (expr = lhs ∧ rest = left ∨
        ∃ sign rhs middle last, token operator left = .matched sign middle ∧
          tail middle = .matched rhs last ∧ expr = .binary sign lhs rhs ∧ rest = trim last) := by
  rw [right_chain_apply] at run
  cases begun : operand (trim input) with
  | failed stop => rw [begun] at run; contradiction
  | matched lhs left =>
      rw [begun, Outcome.and_then_matched] at run
      refine ⟨lhs, left, rfl, ?_⟩
      cases continued : Parser.sequence (token operator, tail) left with
      | failed stop =>
          rw [continued] at run
          cases run
          exact .inl ⟨rfl, rfl⟩
      | matched pair last =>
          rw [continued] at run
          cases run
          obtain ⟨middle, signed, tailed⟩ := pair_matched.mp continued
          exact .inr ⟨_, _, middle, last, signed, tailed, rfl, rfl⟩

theorem left_chain_apply (input : List Char) :
    leftChain operand operator input =
      (operand (trim input)).andThen fun first rest =>
        .matched (foldLeft first (advance (Parser.sequence (token operator, operand)) rest).1)
          (trim (advance (Parser.sequence (token operator, operand)) rest).2) := by
  rw [leftChain, bind_apply, skip_space_apply, Outcome.and_then_matched, bind_apply]
  congr
  funext first rest
  simp only [bind_apply, many, Outcome.and_then_matched, skip_space_apply]
  rfl

/-- The links of a chain are an operator and a chain again, if they are not over. -/
theorem advance_links (slices : operand.Slices) (consumes : operator.Consumes)
    (input : List Char) :
    advance (link operand operator) input =
      match Parser.sequence (token operator, chained operand operator) input with
      | .matched (sign, first, others) rest => ((sign, first) :: others, rest)
      | .failed _ => ([], input) := by
  rw [advance, link_apply, pair_apply]
  cases signed : token operator input with
  | failed stop => rfl
  | matched sign middle =>
      have shorter := token_consumes consumes input sign middle signed
      have kept := (trim_suffix middle).length_le
      simp only [Outcome.and_then_matched, chained_apply]
      cases next : operand (trim middle) with
      | failed stop => rfl
      | matched right rest =>
          have less := (slices.matched_suffix next).length_le
          have further : rest.length < input.length := by omega
          simp only [Outcome.map_matched, Outcome.and_then_matched, further, if_true]

theorem right_chain_alike (slices : operand.Slices) (consumes : operator.Consumes)
    (unfolded : tail = rightChain operand operator tail) (input : List Char) :
    (tail input).Alike (fun expr chain => expr = nestRight chain.1 chain.2)
      (chained operand operator input) := by
  induction length : input.length using Nat.strongRecOn generalizing input with
  | ind bound ih =>
      rw [unfolded, right_chain_apply, chained_apply]
      cases run : operand (trim input) with
      | failed stop => exact .failed stop
      | matched lhs left =>
          have kept := (slices.matched_suffix run).trans (trim_suffix input)
          have short := kept.length_le
          -- the tail starts behind an operator, so it is a chain by induction
          have continued : (Parser.sequence (token operator, tail) left).Alike
              (fun pair row => pair.1 = row.1 ∧ pair.2 = nestRight row.2.1 row.2.2)
              (Parser.sequence (token operator, chained operand operator) left) := by
            rw [pair_apply, pair_apply]
            cases signed : token operator left with
            | failed stop => exact .failed stop
            | matched sign middle =>
                have shorter := token_consumes consumes left sign middle signed
                have alike := ih middle.length (by omega) middle rfl
                simp only [Outcome.and_then_matched]
                generalize tail middle = outcome, chained operand operator middle = outcome'
                  at alike ⊢
                cases alike with
                | failed stop => exact .failed stop
                | matched grouped place => exact .matched ⟨rfl, grouped⟩ place
          simp only [Outcome.and_then_matched, advance_links slices consumes]
          generalize Parser.sequence (token operator, tail) left = outcome,
            Parser.sequence (token operator, chained operand operator) left = outcome'
            at continued ⊢
          cases continued with
          | failed stop => exact .matched rfl rfl
          | matched values place =>
              refine .matched ?_ ((trim_trim _).trans place)
              rw [nestRight, values.1, values.2]

/-- After an operator and the spaces behind it, there are no spaces in front of the operand. -/
theorem link_eq : Parser.sequence (token operator, operand) = link operand operator := by
  funext input
  rw [link_apply, pair_apply, token_apply]
  cases operator (trim input) with
  | failed stop => rfl
  | matched sign rest =>
      simp only [Outcome.and_then_matched, trim_trim]
      cases operand (trim rest) <;> rfl

/-- The fold ends with the last link. -/
theorem fold_left_concat (first : Expr) (others : List (Operator × Expr))
    (last : Operator × Expr) :
    foldLeft first (others ++ [last]) = .binary last.1 (foldLeft first others) last.2 :=
  List.foldl_concat _ _ _ _

theorem nest_left_eq (first : Expr) (links : List (Operator × Expr)) :
    nestLeft first links = foldLeft first links.reverse := by
  induction links with
  | nil => rfl
  | cons last earlier ih => rw [nestLeft, ih, List.reverse_cons, fold_left_concat]

theorem fold_left_eq (first : Expr) (others : List (Operator × Expr)) :
    foldLeft first others = Associativity.left.group first others := by
  rw [Associativity.group, nest_left_eq, List.reverse_reverse]

theorem left_chain_alike (input : List Char) :
    (leftChain operand operator input).Alike
      (fun expr chain => expr = Associativity.left.group chain.1 chain.2)
      (chained operand operator input) := by
  rw [left_chain_apply, chained_apply, link_eq]
  cases operand (trim input) with
  | failed stop => exact .failed stop
  | matched first rest => exact .matched (fold_left_eq first _) (trim_trim _)

theorem chain_alike (associativity : Associativity) (level : Bool) (input : List Char) :
    (parser associativity (chainRule level) input).Alike
      (fun expr chain => expr = associativity.group chain.1 chain.2)
      (chained (parser associativity (operandRule level)) (levelOperator level) input) := by
  cases associativity with
  | right =>
      exact right_chain_alike (parser_slices _ _) (level_consumes level) (right_chain_eq level)
        input
  | left =>
      rw [left_chain_eq]
      exact left_chain_alike input

end Descent.Arithmetic
