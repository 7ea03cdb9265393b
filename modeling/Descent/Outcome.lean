import Descent.Text.Basic

/-!
# Outcomes of parsing

A parser either succeeds with a value and the text it left, or fails. There are two
kinds of failure. A *mismatch* says that the text is not what the parser looks for;
whoever called the parser may absorb it and try something else. A *breach* says that a
parser was used outside its contract (a repetition of a parser that consumes nothing, a
fold of nothing, a remainder that is no part of the input); nothing absorbs it.
-/

namespace Descent

/-! ### Failures -/

/-- How a parser can be used outside its contract. -/
inductive Breach where
  /-- A repeated parser succeeded with a remainder as long as its input, after
  `matched` successes. -/
  | noProgress (matched : Nat)
  /-- A fold without a seed was given no element. -/
  | emptyFold
  /-- A remainder cannot be a suffix of the input. -/
  | invalidRest
  /-- A repeated parser lengthened its input so often that the repetition is given up
  (`Parser.patience`). -/
  | runaway
  deriving DecidableEq

/-- Why a parse failed. -/
inductive ParseError where
  /-- The text does not match, with a message unless the parser is unlabelled. -/
  | mismatch (message : Option String)
  /-- A parser was used outside its contract. -/
  | breach (cause : Breach)
  deriving DecidableEq

namespace Breach

/-- The words for a breach. -/
def describe : Breach → String
  | noProgress matched =>
    s!"repeated parser succeeded without consuming input after {matched} matches"
  | emptyFold => "fold1 requires at least one element"
  | invalidRest => "parser returned a remainder that is not a suffix of its input"
  | runaway => "repeated parser lengthened its input without end"

end Breach

namespace ParseError

/-- A mismatch with a message. -/
abbrev labelled (message : String) : ParseError := .mismatch (some message)

/-- The mismatch of a choice none of whose alternatives matched. -/
def noneMatched : ParseError := labelled "none matched"

/-- Whether a choice, an option or a repetition may absorb the error. -/
def isRecoverable : ParseError → Bool
  | mismatch _ => true
  | breach _ => false

/-- The message of a mismatch that has one. -/
def message? : ParseError → Option String
  | mismatch message => message
  | breach _ => none

/-- The breach, unless the error is a mismatch. -/
def breach? : ParseError → Option Breach
  | mismatch _ => none
  | breach cause => some cause

/-- The words for an error: the message of a mismatch, or what stands for it. -/
def describe : ParseError → String
  | mismatch message => message.getD "parse failed"
  | breach cause => cause.describe

end ParseError

/-! ### Successes -/

/-- A success: what was parsed, and what is left. -/
structure Success (α : Type) where
  /-- The value. -/
  value : α
  /-- The text left over. -/
  rest : Text
  deriving DecidableEq, BEq

namespace Success

variable {α β γ : Type}

/-- The success with another value and the same remainder. -/
def map (f : α → β) (s : Success α) : Success β := ⟨f s.value, s.rest⟩

/-- The number of bytes of `input` in front of the remainder; zero when the remainder is
the longer of the two. -/
def consumed (s : Success α) (input : Text) : Nat := input.size - s.rest.size

@[simp] theorem value_map (f : α → β) (s : Success α) : (s.map f).value = f s.value := rfl

@[simp] theorem rest_map (f : α → β) (s : Success α) : (s.map f).rest = s.rest := rfl

end Success

/-! ### Outcomes -/

/-- The outcome of a parse. -/
inductive Outcome (α : Type) where
  /-- The parse succeeded. -/
  | success (s : Success α)
  /-- The parse failed. -/
  | failure (e : ParseError)
  deriving DecidableEq, BEq

namespace Outcome

variable {α β γ : Type}

/-- The outcome with another value, if there is one. -/
def map (f : α → β) : Outcome α → Outcome β
  | success s => success (s.map f)
  | failure e => failure e

@[simp] theorem map_success (f : α → β) (s : Success α) :
    (success s).map f = success (s.map f) := rfl

@[simp] theorem map_failure (f : α → β) (e : ParseError) :
    (failure e : Outcome α).map f = failure e := rfl

@[simp] theorem map_id (o : Outcome α) : o.map id = o := by cases o <;> rfl

@[simp] theorem map_map (g : β → γ) (f : α → β) (o : Outcome α) :
    (o.map f).map g = o.map (g ∘ f) := by cases o <;> rfl

/-- The breach an outcome reports, if it reports one. -/
def breach? : Outcome α → Option Breach
  | success _ => none
  | failure e => e.breach?

end Outcome

end Descent
