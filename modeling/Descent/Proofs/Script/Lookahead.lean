import Descent.Proofs.Script.Soundness

/-!
One token of lookahead. Every rule starts with tokens that tell it from the alternatives tried
before it, and where the next token is not one that can go on with a phrase, the phrase is over.
-/

namespace Descent.Script

open Descent.Parser

/-- The tokens that an operand starts with. -/
def StartsOperand : Token → Prop
  | .word text => IsName text
  | .numeral _ => True
  | .sign char => char = '('

def Rule.Starts : Rule → Token → Prop
  | .call, token => ∃ text, IsName text ∧ token = .word text
  | .factor, token => StartsOperand token
  | .product, token => StartsOperand token
  | .sum, token => StartsOperand token
  | .block, token => token = .sign '\x7b'
  | .conditional, token => token = .word "if"
  | .expression, token => token = .word "if" ∨ StartsOperand token
  | .assignment, token => ∃ text, IsName text ∧ token = .word text
  | .definition, token => token = .word "fn"
  | .statement, token => token = .word "fn" ∨ token = .word "if" ∨ StartsOperand token

/-- A phrase of a rule is not empty, and starts as the rule does. The lists can be empty. -/
def Phrase.Begins : Phrase → List Token → Prop
  | .rule entered, tokens => ∃ first others, tokens = first :: others ∧ entered.Starts first
  | _, _ => True

theorem begins_of_derives {phrase : Phrase} {tokens : List Token} {trees : List Tree}
    (derives : Derives phrase tokens trees) : phrase.Begins tokens := by
  induction derives with
  | name proper => exact ⟨_, _, rfl, proper⟩
  | number value => exact ⟨_, _, rfl, trivial⟩
  | parentheses inner ih => exact ⟨_, _, rfl, rfl⟩
  | call proper inner ih => exact ⟨_, _, rfl, _, proper, rfl⟩
  | block inner ih => exact ⟨_, _, rfl, rfl⟩
  | oneBranch tested first ih ihFirst => exact ⟨_, _, rfl, rfl⟩
  | twoBranches tested first kind second ih ihFirst ihSecond => exact ⟨_, _, rfl, rfl⟩
  | assignment proper value ih => exact ⟨_, _, rfl, _, proper, rfl⟩
  | definition proper listed inner ih ihInner => exact ⟨_, _, rfl, rfl⟩
  | factorCall call ih =>
      obtain ⟨first, others, rfl, text, proper, rfl⟩ := ih
      exact ⟨_, _, rfl, proper⟩
  | lastFactor operand ih | lastProduct operand ih => exact ih
  | nextFactor operand level chain ih ihChain | nextProduct operand level chain ih ihChain =>
      obtain ⟨first, others, rfl, starts⟩ := ih
      exact ⟨_, _, rfl, starts⟩
  | expressionConditional conditional ih =>
      obtain ⟨first, others, rfl, starts⟩ := ih
      exact ⟨_, _, rfl, .inl starts⟩
  | expressionSum sum ih =>
      obtain ⟨first, others, rfl, starts⟩ := ih
      exact ⟨_, _, rfl, .inr starts⟩
  | statementDefinition inner ih =>
      obtain ⟨first, others, rfl, starts⟩ := ih
      exact ⟨_, _, rfl, .inl starts⟩
  | statementAssignment inner ih =>
      obtain ⟨first, others, rfl, text, proper, rfl⟩ := ih
      exact ⟨_, _, rfl, .inr (.inr proper)⟩
  | statementConditional inner ih =>
      obtain ⟨first, others, rfl, starts⟩ := ih
      exact ⟨_, _, rfl, .inr (.inl starts)⟩
  | statementClosed inner ih =>
      obtain ⟨first, others, rfl, starts⟩ := ih
      exact ⟨_, _, rfl, .inr (.inl starts)⟩
  | statementSum inner ih =>
      obtain ⟨first, others, rfl, starts⟩ := ih
      exact ⟨_, _, rfl, .inr (.inr starts)⟩
  | _ => trivial

theorem rule_starts {rule : Rule} {tokens : List Token} {tree : Tree}
    (phrase : rule.Language tokens tree) :
    ∃ first others, tokens = first :: others ∧ rule.Starts first := begins_of_derives phrase

/-- A rule refuses a place where none of its phrases can start. -/
theorem rule_refuses {rule : Rule} {place : List Char}
    (other : ∀ token middle, lexicon.next? place = some (token, middle) → ¬ rule.Starts token) :
    (parser rule).Refuses place := by
  apply refuses_of_unmatched
  intro input tree last same run
  obtain ⟨tokens, reads, phrase⟩ := parser_recognizes rule input tree last run
  obtain ⟨first, others, rfl, starts⟩ := rule_starts phrase
  obtain ⟨middle, found, -⟩ := (reads.congr_left same).uncons
  exact other first middle found starts

theorem rule_refuses_of_reads {rule : Rule} {place rest : List Char} {token : Token}
    {tokens : List Token} (reads : lexicon.Reads place (token :: tokens) rest)
    (other : ¬ rule.Starts token) : (parser rule).Refuses place := by
  apply rule_refuses
  intro found middle first starts
  obtain ⟨place, again, -⟩ := reads.uncons
  cases first.symm.trans again
  exact other starts

/-- In an operand or a chain of operands, no equals sign follows a first name. -/
def Phrase.AvoidsEquals : Phrase → List Token → Prop
  | .rule .call, tokens | .rule .factor, tokens | .rule .product, tokens | .rule .sum, tokens =>
      ∀ first others, tokens ≠ first :: .sign '=' :: others
  | _, _ => True

theorem chain_avoids_equals {tokens following : List Token} {first : Token} {others : List Token}
    {char : Char} (visible : ∃ token more, tokens = token :: more) (differs : char ≠ '=')
    (operand : ∀ first others, tokens ≠ first :: .sign '=' :: others) :
    tokens ++ .sign char :: following ≠ first :: .sign '=' :: others := by
  intro same
  obtain ⟨token, more, rfl⟩ := visible
  cases more with
  | nil =>
      simp only [List.cons_append, List.nil_append, List.cons.injEq, Token.sign.injEq] at same
      exact differs same.2.1
  | cons second more =>
      simp only [List.cons_append, List.cons.injEq] at same
      obtain ⟨rfl, rfl, -⟩ := same
      exact operand _ _ rfl

theorem avoids_equals {phrase : Phrase} {tokens : List Token} {trees : List Tree}
    (derives : Derives phrase tokens trees) : phrase.AvoidsEquals tokens := by
  induction derives with
  | name proper => simp [Phrase.AvoidsEquals]
  | number value => simp [Phrase.AvoidsEquals]
  | parentheses inner ih =>
      intro first others same
      simp only [List.cons_append, List.cons.injEq] at same
      obtain ⟨-, same⟩ := same
      obtain ⟨token, more, rfl, starts⟩ := rule_starts inner
      simp only [List.cons_append, List.cons.injEq] at same
      obtain ⟨rfl, -⟩ := same
      rcases starts with starts | starts
      · contradiction
      · exact absurd starts (show ¬ '=' = '(' by decide)
  | call proper inner ih => simp [Phrase.AvoidsEquals]
  | factorCall call ih => exact ih
  | lastFactor operand ih | lastProduct operand ih => exact ih
  | nextFactor operand level chain ih ihChain | nextProduct operand level chain ih ihChain =>
      intro first others
      obtain ⟨token, more, same, -⟩ := rule_starts operand
      refine chain_avoids_equals ⟨token, more, same⟩ ?_ ih
      rintro rfl
      simp at level
  | _ => trivial

/-- The tokens that can go on with a phrase of a rule, beyond what it needs to be complete. -/
def Rule.extensions : Rule → List Token
  | .call => []
  | .factor => [.sign '(']
  | .product => [.sign '(', .sign '*', .sign '/']
  | .sum => [.sign '(', .sign '*', .sign '/', .sign '+', .sign '-']
  | .block => []
  | .conditional => [.word "else"]
  | .expression => [.word "else", .sign '(', .sign '*', .sign '/', .sign '+', .sign '-']
  | .assignment => [.word "else", .sign '(', .sign '*', .sign '/', .sign '+', .sign '-']
  | .definition => []
  | .statement => [.word "else", .sign ';']

/-- A list goes on with anything but what stands after it. -/
def Phrase.Extends : Phrase → Token → Prop
  | .rule entered, token => token ∈ entered.extensions
  | .names, token => token = .sign ','
  | .expressions, token => token = .sign ',' ∨ token ∈ Rule.expression.extensions
  | .parameters, token => token ≠ .sign ')'
  | .arguments, token => token ≠ .sign ')'
  | .statements, token => token ≠ .sign '\x7d'

instance (phrase : Phrase) (token : Token) : Decidable (phrase.Extends token) :=
  match phrase with
  | .rule entered => inferInstanceAs (Decidable (token ∈ entered.extensions))
  | .names => inferInstanceAs (Decidable (token = .sign ','))
  | .expressions =>
      inferInstanceAs (Decidable (token = .sign ',' ∨ token ∈ Rule.expression.extensions))
  | .parameters => inferInstanceAs (Decidable (token ≠ .sign ')'))
  | .arguments => inferInstanceAs (Decidable (token ≠ .sign ')'))
  | .statements => inferInstanceAs (Decidable (token ≠ .sign '\x7d'))

/-- Nothing at this place goes on with the phrase. -/
def Phrase.Closes (phrase : Phrase) (place : List Char) : Prop :=
  ∀ token middle, lexicon.next? place = some (token, middle) → ¬ phrase.Extends token

theorem closes_of_reads {phrase : Phrase} {place rest : List Char} {token : Token}
    {tokens : List Token} (reads : lexicon.Reads place (token :: tokens) rest)
    (ended : ¬ phrase.Extends token) : phrase.Closes place := by
  intro found middle first
  obtain ⟨place, again, -⟩ := reads.uncons
  cases first.symm.trans again
  exact ended

theorem closes_of_complete {rule : Rule} (complete : rule.extensions = []) (place : List Char) :
    (Phrase.rule rule).Closes place := by
  intro token middle first extending
  rw [Phrase.Extends, complete] at extending
  exact absurd extending List.not_mem_nil

theorem closes_of_subset {rule other : Rule} {place : List Char}
    (fewer : ∀ token ∈ rule.extensions, token ∈ other.extensions)
    (closes : (Phrase.rule other).Closes place) : (Phrase.rule rule).Closes place :=
  fun token middle first extending => closes token middle first (fewer token extending)

theorem Phrase.Closes.mono {phrase other : Phrase} {place : List Char}
    (closes : phrase.Closes place)
    (fewer : ∀ token, other.Extends token → phrase.Extends token) : other.Closes place :=
  fun token middle first extending => closes token middle first (fewer token extending)

theorem Phrase.Closes.congr {phrase : Phrase} {place other : List Char}
    (same : Text.trim place = Text.trim other) (closes : phrase.Closes place) :
    phrase.Closes other := by
  intro token middle first
  exact closes token middle ((Lexicon.next_congr same).trans first)

theorem Phrase.Closes.next_ne {phrase : Phrase} {place : List Char} {token : Token}
    (closes : phrase.Closes place) (extending : phrase.Extends token) (middle : List Char) :
    lexicon.next? place ≠ some (token, middle) :=
  fun first => closes token middle first extending

end Descent.Script
