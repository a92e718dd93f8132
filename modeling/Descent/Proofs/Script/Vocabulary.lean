import Descent.Proofs.Parser.Yield
import Descent.Script.Derivation

/-!
The vocabulary of scripts. The parsers for signs, keywords, names and numbers take exactly the
tokens of the lexicon.
-/

namespace Descent.Script

open Descent.Parser

theorem signs_plain : ∀ char ∈ lexicon.signs, char.isLower = false ∧ char.isDigit = false := by
  have checked : lexicon.signs.all (fun char => !char.isLower && !char.isDigit) = true := rfl
  intro char known
  simpa using List.all_eq_true.mp checked char known

theorem symbol_takes (char : Char) (known : char ∈ lexicon.signs) :
    Takes lexicon (symbol (String.singleton char)) (Token.sign? char) :=
  Parser.symbol_takes known signs_plain

theorem keyword_takes (text : String) :
    Takes lexicon (keyword text) fun token => token.word?.filter (· == text) :=
  verify_takes (name_takes rfl) _

theorem variable_name_takes :
    Takes lexicon variableName fun token =>
      token.word?.filter fun text => !keywords.contains text :=
  verify_takes (name_takes rfl) _

theorem number_takes : Takes lexicon natural Token.numeral? := natural_takes fun _ => rfl

theorem filter_word {test : String → Bool} {token : Token} {text : String}
    (passed : token.word?.filter test = some text) : token = .word text ∧ test text = true := by
  obtain ⟨found, checked⟩ := Option.filter_eq_some_iff.mp passed
  cases token with
  | word _ => cases found; exact ⟨rfl, checked⟩
  | numeral _ => cases found
  | sign _ => cases found

variable {input place middle rest : List Char}

theorem symbol_reads (char : Char) (known : char ∈ lexicon.signs) {text : String}
    (run : symbol (String.singleton char) input = .matched text rest) :
    text = String.singleton char ∧ lexicon.Reads input [.sign char] rest := by
  obtain ⟨token, passed, reads⟩ := (symbol_takes char known).reads run
  obtain ⟨rfl, rfl⟩ := Token.sign_eq_some.mp passed
  exact ⟨rfl, reads⟩

theorem keyword_reads {text found : String} (run : keyword text input = .matched found rest) :
    lexicon.Reads input [.word text] rest := by
  obtain ⟨token, passed, reads⟩ := (keyword_takes text).reads run
  obtain ⟨rfl, same⟩ := filter_word passed
  rw [beq_iff_eq.mp same] at reads
  exact reads

theorem variable_name_reads {text : String} (run : variableName input = .matched text rest) :
    IsName text ∧ lexicon.Reads input [.word text] rest := by
  obtain ⟨token, passed, reads⟩ := variable_name_takes.reads run
  obtain ⟨rfl, proper⟩ := filter_word passed
  exact ⟨by simpa [IsName] using proper, reads⟩

theorem number_reads {value : Nat} (run : natural input = .matched value rest) :
    lexicon.Reads input [.numeral value] rest := by
  obtain ⟨token, passed, reads⟩ := number_takes.reads run
  cases token with
  | numeral _ => cases passed; exact reads
  | word _ => cases passed
  | sign _ => cases passed

theorem parenthesized_reads {α : Type} {parser : Parser α} {value : α}
    (run : parenthesized parser input = .matched value rest) :
    ∃ middle inner, lexicon.Reads input [.sign '('] middle ∧
      parser middle = .matched value inner ∧ lexicon.Reads inner [.sign ')'] rest := by
  obtain ⟨_, middle, inner, _, opened, parsed, closed⟩ := between_matched.mp run
  exact ⟨middle, inner, (symbol_reads '(' (by decide) opened).2, parsed,
    (symbol_reads ')' (by decide) closed).2⟩

theorem symbol_yields (char : Char) (known : char ∈ lexicon.signs)
    (reads : lexicon.Reads place [.sign char] rest) :
    (symbol (String.singleton char)).Yields place (String.singleton char) rest :=
  (symbol_takes char known).yields (Token.sign_eq_some.mpr ⟨rfl, rfl⟩) reads

theorem symbol_refuses (char : Char) (known : char ∈ lexicon.signs)
    (other : ∀ middle, lexicon.next? place ≠ some (.sign char, middle)) :
    (symbol (String.singleton char)).Refuses place := by
  apply (symbol_takes char known).refuses
  intro token middle first
  apply if_neg
  intro same
  subst same
  exact other middle first

theorem keyword_yields {text : String} (reads : lexicon.Reads place [.word text] rest) :
    (keyword text).Yields place text rest :=
  (keyword_takes text).yields (Option.filter_eq_some_iff.mpr ⟨rfl, beq_self_eq_true text⟩) reads

theorem keyword_refuses {text : String}
    (other : ∀ middle, lexicon.next? place ≠ some (.word text, middle)) :
    (keyword text).Refuses place := by
  apply (keyword_takes text).refuses
  intro token middle first
  cases passed : token.word?.filter (· == text) with
  | none => rfl
  | some found =>
      obtain ⟨rfl, same⟩ := filter_word passed
      rw [beq_iff_eq.mp same] at first
      exact absurd first (other middle)

theorem variable_name_yields {text : String} (proper : IsName text)
    (reads : lexicon.Reads place [.word text] rest) :
    variableName.Yields place text rest :=
  variable_name_takes.yields
    (Option.filter_eq_some_iff.mpr ⟨rfl, by simpa [IsName] using proper⟩) reads

theorem variable_name_refuses
    (other : ∀ text middle, lexicon.next? place = some (.word text, middle) → ¬ IsName text) :
    variableName.Refuses place := by
  apply variable_name_takes.refuses
  intro token middle first
  cases passed : token.word?.filter fun text => !keywords.contains text with
  | none => rfl
  | some found =>
      obtain ⟨rfl, proper⟩ := filter_word passed
      exact absurd (by simpa [IsName] using proper) (other found middle first)

theorem number_yields {value : Nat} (reads : lexicon.Reads place [.numeral value] rest) :
    natural.Yields place value rest := number_takes.yields rfl reads

theorem number_refuses
    (other : ∀ value middle, lexicon.next? place ≠ some (.numeral value, middle)) :
    natural.Refuses place := by
  apply number_takes.refuses
  intro token middle first
  cases token with
  | numeral value => exact absurd first (other value middle)
  | word _ => rfl
  | sign _ => rfl

theorem parenthesized_yields {α : Type} {parser : Parser α} {value : α} {inner : List Char}
    (opened : lexicon.Reads place [.sign '('] middle) (parsed : parser.Yields middle value inner)
    (closed : lexicon.Reads inner [.sign ')'] rest) :
    (parenthesized parser).Yields place value rest :=
  Yields.between (symbol_yields '(' (by decide) opened) parsed
    (symbol_yields ')' (by decide) closed)

theorem parenthesized_refuses {α : Type} (parser : Parser α)
    (other : ∀ middle, lexicon.next? place ≠ some (.sign '(', middle)) :
    (parenthesized parser).Refuses place := (symbol_refuses '(' (by decide) other).bind _

end Descent.Script
