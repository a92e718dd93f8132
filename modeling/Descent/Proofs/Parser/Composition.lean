import Descent.Proofs.Parser.Slicing

/-!
The parsers that can be composed of the parsers and combinators of this library, nested in any way,
around argument parsers of which nothing is known but that they slice. Main statement: they all slice.
-/

namespace Descent.Parser

inductive Composed : {α : Type} → Parser α → Prop where
  | given {α : Type} {parser : Parser α} (slices : parser.Slices) : Composed parser
  | anyChar : Composed anyChar
  /-- All parsers for a character of a class, and the one for a given character. -/
  | satisfy (test : Char → Bool) : Composed (satisfy test)
  | literal (text : String) : Composed (literal text)
  | endOfInput : Composed endOfInput
  | pure {α : Type} (value : α) : Composed (pure value)
  | fail {α : Type} : Composed (fail : Parser α)
  | map {α β : Type} (f : α → β) {parser : Parser α} (inner : Composed parser) :
      Composed (f <$> parser)
  | bind {α β : Type} {parser : Parser α} {next : α → Parser β} (first : Composed parser)
      (others : ∀ value, Composed (next value)) : Composed (parser >>= next)
  | apply {α β : Type} {function : Parser (α → β)} {argument : Parser α}
      (first : Composed function) (second : Composed argument) : Composed (function <*> argument)
  | orElse {α : Type} {first second : Parser α} (tried : Composed first)
      (other : Composed second) : Composed (first <|> second)
  | choice {α : Type} {parsers : List (Parser α)} (inner : ∀ parser ∈ parsers, Composed parser) :
      Composed (choice parsers)
  | optional {α : Type} {parser : Parser α} (inner : Composed parser) : Composed (optional parser)
  | row {α ρ τ : Type} [Row ρ τ] {parser : Parser α} {others : ρ} (first : Composed parser)
      (more : Composed (Parser.sequence others)) : Composed (Parser.sequence (parser, others))
  | list {α : Type} {parsers : List (Parser α)} (inner : ∀ parser ∈ parsers, Composed parser) :
      Composed (Parser.sequence parsers)
  | precededBy {α β : Type} {opening : Parser β} {parser : Parser α} (opens : Composed opening)
      (inner : Composed parser) : Composed (precededBy opening parser)
  | terminatedBy {α β : Type} {parser : Parser α} {closing : Parser β} (inner : Composed parser)
      (closes : Composed closing) : Composed (terminatedBy parser closing)
  | between {α β γ : Type} {opening : Parser β} {closing : Parser γ} {parser : Parser α}
      (opens : Composed opening) (closes : Composed closing) (inner : Composed parser) :
      Composed (between opening closing parser)
  | recognize {α : Type} {parser : Parser α} (inner : Composed parser) :
      Composed (recognize parser)
  | verify {α : Type} {parser : Parser α} (inner : Composed parser) (test : α → Bool) :
      Composed (verify parser test)
  | many {α : Type} {parser : Parser α} (inner : Composed parser) : Composed (many parser)
  | many1 {α : Type} {parser : Parser α} (inner : Composed parser) : Composed (many1 parser)
  | skipMany {α : Type} {parser : Parser α} (inner : Composed parser) : Composed (skipMany parser)
  | separated {α β : Type} {parser : Parser α} {separator : Parser β} (inner : Composed parser)
      (separates : Composed separator) : Composed (separated parser separator)
  | token {α : Type} {parser : Parser α} (inner : Composed parser) : Composed (token parser)
  | symbol (text : String) : Composed (symbol text)
  | skipSpace : Composed skipSpace
  | space : Composed space
  | identifier : Composed identifier
  | word : Composed word
  | assignment : Composed assignment
  | nat (type : IntegerType) : Composed (nat type)
  | int (type : IntegerType) : Composed (int type)
  | natural : Composed natural
  | integer : Composed integer
  | commaSeparated {α : Type} {item : Parser α} (inner : Composed item) :
      Composed (commaSeparated item)
  | bracketed {α : Type} {item : Parser α} (inner : Composed item) : Composed (bracketed item)
  | naturals : Composed naturals
  | alphanumerics : Composed alphanumerics

theorem composed_slices {α : Type} {parser : Parser α} (composed : parser.Composed) :
    parser.Slices := by
  induction composed with
  | given slices => exact slices
  | anyChar => exact any_char_slices
  | satisfy test => exact satisfy_slices test
  | literal text => exact literal_slices text
  | endOfInput => exact end_of_input_slices
  | pure value => exact pure_slices value
  | fail => exact fail_slices
  | map f inner ih => exact map_slices f ih
  | bind first others ih ihOthers => exact bind_slices ih ihOthers
  | apply first second ih ihSecond => exact seq_slices ih ihSecond
  | orElse tried other ih ihOther => exact or_else_slices ih ihOther
  | choice inner ih => exact choice_slices ih
  | optional inner ih => exact optional_slices ih
  | row first more ih ihMore => exact row_slices ih ihMore
  | list inner ih => exact list_slices ih
  | precededBy opens inner ih ihInner => exact preceded_by_slices ih ihInner
  | terminatedBy inner closes ih ihCloses => exact terminated_by_slices ih ihCloses
  | between opens closes inner ih ihCloses ihInner => exact between_slices ih ihCloses ihInner
  | recognize inner ih => exact recognize_slices ih
  | verify inner test ih => exact verify_slices ih test
  | many inner ih => exact many_slices ih
  | many1 inner ih => exact many1_slices ih
  | skipMany inner ih => exact skip_many_slices ih
  | separated inner separates ih ihSeparates => exact separated_slices ih ihSeparates
  | token inner ih => exact token_slices ih
  | symbol text => exact symbol_slices text
  | skipSpace => exact skip_space_slices
  | space => exact recognize_slices skip_space_slices
  | identifier => exact identifier_slices
  | word => exact word_slices
  | assignment => exact assignment_slices
  | nat type => exact nat_slices type
  | int type => exact int_slices type
  | natural => exact token_slices (nat_slices _)
  | integer => exact token_slices (int_slices _)
  | commaSeparated inner ih => exact comma_separated_slices ih
  | bracketed inner ih => exact bracketed_slices ih
  | naturals => exact bracketed_slices (token_slices (nat_slices _))
  | alphanumerics => exact bracketed_slices (token_slices (satisfy_slices _))

end Descent.Parser
