import Descent.Text.Width

/-!
The outcome of running a parser: a value together with the input that follows it, or a failure
together with the input at the place where it was noticed. Both carry what is left of the input,
so that an outcome alone determines a position in any source that ends with it.
-/

namespace Descent

inductive Outcome (α : Type) where
  /-- The parser matched, and `rest` follows the matched part. -/
  | matched (value : α) (rest : List Char)
  /-- The mismatch was noticed at `rest`, which can lie beyond the start of the parser. -/
  | failed (rest : List Char)
deriving BEq, DecidableEq

namespace Outcome

variable {α β : Type}

def isMatched : Outcome α → Bool
  | matched _ _ => true
  | failed _ => false

/-- What follows the match, or what begins at the mismatch. -/
def rest : Outcome α → List Char
  | matched _ rest => rest
  | failed rest => rest

def value? : Outcome α → Option α
  | matched value _ => some value
  | failed _ => none

def toExcept : Outcome α → Except (List Char) (α × List Char)
  | matched value rest => .ok (value, rest)
  | failed rest => .error rest

/-- The byte offset of the rest within `source`, a text that ends with that rest. -/
def offsetIn (outcome : Outcome α) (source : List Char) : Nat :=
  Text.byteLength source - Text.byteLength outcome.rest

def map (f : α → β) : Outcome α → Outcome β
  | matched value rest => matched (f value) rest
  | failed rest => failed rest

/-- Goes on after a match; a failure stays as it is. -/
def andThen (outcome : Outcome α) (next : α → List Char → Outcome β) : Outcome β :=
  match outcome with
  | matched value rest => next value rest
  | failed rest => failed rest

/-- Replaces a failure, place included, by another outcome; a match stays as it is. -/
def orElse (outcome : Outcome α) (other : Unit → Outcome α) : Outcome α :=
  match outcome with
  | matched value rest => matched value rest
  | failed _ => other ()

@[simp] theorem map_matched (f : α → β) (value : α) (rest : List Char) :
    (matched value rest).map f = matched (f value) rest := rfl

@[simp] theorem map_failed (f : α → β) (rest : List Char) :
    (failed rest : Outcome α).map f = failed rest := rfl

@[simp] theorem and_then_matched (value : α) (rest : List Char)
    (next : α → List Char → Outcome β) :
    (matched value rest).andThen next = next value rest := rfl

@[simp] theorem and_then_failed (rest : List Char) (next : α → List Char → Outcome β) :
    (failed rest).andThen next = failed rest := rfl

@[simp] theorem or_else_matched (value : α) (rest : List Char) (other : Unit → Outcome α) :
    (matched value rest).orElse other = matched value rest := rfl

@[simp] theorem or_else_failed (rest : List Char) (other : Unit → Outcome α) :
    (failed rest).orElse other = other () := rfl

@[simp] theorem rest_matched (value : α) (rest : List Char) :
    (matched value rest).rest = rest := rfl

@[simp] theorem rest_failed (rest : List Char) : (failed rest : Outcome α).rest = rest := rfl

end Outcome

end Descent
