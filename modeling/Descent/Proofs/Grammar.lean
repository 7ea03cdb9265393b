import Descent.Parser.Chars
import Descent.Parser.Choice
import Descent.Parser.Sequence
import Descent.Parser.Basic
import Mathlib.Data.List.OfFn

/-!
# Grammars

A grammar is a parser as it was put together: a tree whose nodes say which combinator
made them (`Form`) and what it was given. `Grammar.parser` is the parser itself.
`Grammar.watched` is the same parser with every node traced under the name of its form,
so that its log has an `Event.enter` for each invocation of a node, on the text it was
given, and an `Event.leave` with the breach it ended in, if any. What a parser does
inside is said of the log of the watched one.

The alternatives of a choice and the parts of a sequence are numbered (`Fin n → Grammar α`).
`ofFn` is a leaf: what its function does inside is not part of the grammar.
-/

namespace Descent

/-! ### Forms -/

/-- What a node of a grammar is made with. -/
inductive Form where
  | symbol | char | literal | satisfy | oneOrMoreChars | zeroOrMoreChars
  | pure | fail | ofFn
  | map | ap | bind | lift2 | lift3 | lift4 | lift5 | fold | fold1
  | sequence | anyOf | or | optional | oneOrMore | zeroOrMore | consumed
  deriving DecidableEq, Repr

/-- The name a node is traced under. -/
def Form.name : Form → String
  | symbol => "symbol"
  | char => "char"
  | literal => "literal"
  | satisfy => "satisfy"
  | oneOrMoreChars => "oneOrMoreChars"
  | zeroOrMoreChars => "zeroOrMoreChars"
  | pure => "pure"
  | fail => "fail"
  | ofFn => "ofFn"
  | map => "map"
  | ap => "ap"
  | bind => "bind"
  | lift2 => "lift2"
  | lift3 => "lift3"
  | lift4 => "lift4"
  | lift5 => "lift5"
  | fold => "fold"
  | fold1 => "fold1"
  | sequence => "sequence"
  | anyOf => "anyOf"
  | or => "or"
  | optional => "optional"
  | oneOrMore => "oneOrMore"
  | zeroOrMore => "zeroOrMore"
  | consumed => "consumed"

theorem Form.name_injective {f g : Form} (h : f.name = g.name) : f = g := by
  revert h
  cases f <;> cases g <;> decide

/-! ### Grammars -/

/-- A parser as it was put together from the combinators. -/
inductive Grammar : Type → Type 1 where
  | symbol : Grammar Char
  | char (wanted : Char) : Grammar Char
  | literal (wanted : Text) : Grammar Text
  | satisfy (test : Char → Bool) (label : String) : Grammar Char
  | oneOrMoreChars (test : Char → Bool) (label : String) : Grammar Text
  | zeroOrMoreChars (test : Char → Bool) : Grammar Text
  | pure {α : Type} (a : α) : Grammar α
  | fail {α : Type} (message : String) : Grammar α
  | ofFn {α : Type} (f : Text → Outcome α) : Grammar α
  | map {α β : Type} (f : α → β) (p : Grammar α) : Grammar β
  | ap {α β : Type} (pf : Grammar (α → β)) (pa : Grammar α) : Grammar β
  | bind {α β : Type} (p : Grammar α) (f : α → Grammar β) : Grammar β
  | lift2 {α β γ : Type} (f : α → β → γ) (p : Grammar α) (q : Grammar β) : Grammar γ
  | lift3 {α β γ δ : Type} (f : α → β → γ → δ) (p : Grammar α) (q : Grammar β)
      (r : Grammar γ) : Grammar δ
  | lift4 {α β γ δ ε : Type} (f : α → β → γ → δ → ε) (p : Grammar α) (q : Grammar β)
      (r : Grammar γ) (t : Grammar δ) : Grammar ε
  | lift5 {α β γ δ ε ζ : Type} (f : α → β → γ → δ → ε → ζ) (p : Grammar α)
      (q : Grammar β) (r : Grammar γ) (t : Grammar δ) (u : Grammar ε) : Grammar ζ
  | fold {α β : Type} (p : Grammar (List α)) (combine : β → α → β) (seed : β) : Grammar β
  | fold1 {α : Type} (p : Grammar (List α)) (combine : α → α → α) : Grammar α
  | sequence {α : Type} {n : Nat} (ps : Fin n → Grammar α) : Grammar (List α)
  | anyOf {α : Type} {n : Nat} (ps : Fin n → Grammar α) : Grammar α
  | or {α : Type} (p q : Grammar α) : Grammar α
  | optional {α : Type} (p : Grammar α) : Grammar (Option α)
  | oneOrMore {α : Type} (p : Grammar α) : Grammar (List α)
  | zeroOrMore {α : Type} (p : Grammar α) : Grammar (List α)
  | consumed {α : Type} (p : Grammar α) : Grammar (α × Text)

namespace Grammar

/-- The parser of a node, traced under the name of its form if nodes are watched. -/
def node (watch : Bool) {α : Type} (form : Form) (p : Parser α) : Parser α :=
  if watch then p.traced form.name else p

/-- The parser of a grammar, with all nodes traced if they are watched. -/
def build (watch : Bool) : {α : Type} → Grammar α → Parser α
  | _, .symbol => node watch .symbol Parser.symbol
  | _, .char wanted => node watch .char (Parser.char wanted)
  | _, .literal wanted => node watch .literal (Parser.literal wanted)
  | _, .satisfy test label => node watch .satisfy (Parser.satisfy test label)
  | _, .oneOrMoreChars test label =>
    node watch .oneOrMoreChars (Parser.oneOrMoreChars test label)
  | _, .zeroOrMoreChars test => node watch .zeroOrMoreChars (Parser.zeroOrMoreChars test)
  | _, .pure a => node watch .pure (Parser.pure a)
  | _, .fail message => node watch .fail (Parser.fail message)
  | _, .ofFn f => node watch .ofFn (Parser.ofFn f)
  | _, .map f p => node watch .map ((p.build watch).map f)
  | _, .ap pf pa => node watch .ap ((pf.build watch).ap (pa.build watch))
  | _, .bind p f => node watch .bind ((p.build watch).bind fun a => (f a).build watch)
  | _, .lift2 f p q => node watch .lift2 (Parser.lift2 f (p.build watch) (q.build watch))
  | _, .lift3 f p q r =>
    node watch .lift3 (Parser.lift3 f (p.build watch) (q.build watch) (r.build watch))
  | _, .lift4 f p q r t =>
    node watch .lift4
      (Parser.lift4 f (p.build watch) (q.build watch) (r.build watch) (t.build watch))
  | _, .lift5 f p q r t u =>
    node watch .lift5 (Parser.lift5 f (p.build watch) (q.build watch) (r.build watch)
      (t.build watch) (u.build watch))
  | _, .fold p combine seed => node watch .fold ((p.build watch).fold combine seed)
  | _, .fold1 p combine => node watch .fold1 ((p.build watch).fold1 combine)
  | _, .sequence ps =>
    node watch .sequence (Parser.sequence (List.ofFn fun i => (ps i).build watch))
  | _, .anyOf ps => node watch .anyOf (Parser.anyOf (List.ofFn fun i => (ps i).build watch))
  | _, .or p q => node watch .or ((p.build watch).or (q.build watch))
  | _, .optional p => node watch .optional (Parser.optional (p.build watch))
  | _, .oneOrMore p => node watch .oneOrMore (Parser.oneOrMore (p.build watch))
  | _, .zeroOrMore p => node watch .zeroOrMore (Parser.zeroOrMore (p.build watch))
  | _, .consumed p => node watch .consumed (Parser.consumed (p.build watch))

/-- The parser of a grammar. -/
def parser {α : Type} (g : Grammar α) : Parser α := g.build false

/-- The parser of a grammar with all nodes traced. -/
def watched {α : Type} (g : Grammar α) : Parser α := g.build true

/-- The functions at the `ofFn` leaves of a grammar all have the property. -/
def Leaves (P : {α : Type} → (Text → Outcome α) → Prop) : {α : Type} → Grammar α → Prop
  | _, .ofFn f => P f
  | _, .map _ p => p.Leaves P
  | _, .ap pf pa => pf.Leaves P ∧ pa.Leaves P
  | _, .bind p f => p.Leaves P ∧ ∀ a, (f a).Leaves P
  | _, .lift2 _ p q => p.Leaves P ∧ q.Leaves P
  | _, .lift3 _ p q r => p.Leaves P ∧ q.Leaves P ∧ r.Leaves P
  | _, .lift4 _ p q r t => p.Leaves P ∧ q.Leaves P ∧ r.Leaves P ∧ t.Leaves P
  | _, .lift5 _ p q r t u =>
    p.Leaves P ∧ q.Leaves P ∧ r.Leaves P ∧ t.Leaves P ∧ u.Leaves P
  | _, .fold p _ _ => p.Leaves P
  | _, .fold1 p _ => p.Leaves P
  | _, .sequence ps => ∀ i, (ps i).Leaves P
  | _, .anyOf ps => ∀ i, (ps i).Leaves P
  | _, .or p q => p.Leaves P ∧ q.Leaves P
  | _, .optional p => p.Leaves P
  | _, .oneOrMore p => p.Leaves P
  | _, .zeroOrMore p => p.Leaves P
  | _, .consumed p => p.Leaves P
  | _, _ => True

theorem leaves_of_forall {P : {α : Type} → (Text → Outcome α) → Prop}
    (h : ∀ {α : Type} (f : Text → Outcome α), P f) {α : Type} (g : Grammar α) : g.Leaves P := by
  induction g with
  | ofFn f => exact h f
  | map f p ihp => exact ihp
  | ap pf pa ihf iha => exact ⟨ihf, iha⟩
  | bind p f ihp ihf => exact ⟨ihp, ihf⟩
  | lift2 f p q ihp ihq => exact ⟨ihp, ihq⟩
  | lift3 f p q r ihp ihq ihr => exact ⟨ihp, ihq, ihr⟩
  | lift4 f p q r t ihp ihq ihr iht => exact ⟨ihp, ihq, ihr, iht⟩
  | lift5 f p q r t u ihp ihq ihr iht ihu => exact ⟨ihp, ihq, ihr, iht, ihu⟩
  | fold p combine seed ihp => exact ihp
  | fold1 p combine ihp => exact ihp
  | sequence ps ih => exact ih
  | anyOf ps ih => exact ih
  | or p q ihp ihq => exact ⟨ihp, ihq⟩
  | optional p ihp => exact ihp
  | oneOrMore p ihp => exact ihp
  | zeroOrMore p ihp => exact ihp
  | consumed p ihp => exact ihp
  | _ => exact trivial

end Grammar

end Descent
