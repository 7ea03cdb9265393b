import Descent.Arith.Expression
import Descent.Proofs.Grammar

/-!
# Grammars of arithmetic

The parsers of numbers, operators and expressions are put together from the combinators
alone: each is the parser of a grammar with no function of the text at a leaf. So what
is said of grammars is said of them, and of what is put together from them.
-/

namespace Descent

namespace Grammar

open Descent.Arith (Operator isSpace isDigit narrow? numeralValue)

variable {α : Type} {P : {α : Type} → (Text → Outcome α) → Prop}

/-- The choice of the grammars of a list. -/
def choice (ps : List (Grammar α)) : Grammar α := .anyOf ps.get

theorem parser_choice (ps : List (Grammar α)) :
    (choice ps).parser = Parser.anyOf (ps.map parser) := by
  have hlist : (List.ofFn fun i => (ps.get i).parser) = ps.map parser := by
    rw [List.ofFn_comp' ps.get parser, List.ofFn_get]
  exact congrArg Parser.anyOf hlist

theorem leaves_choice {ps : List (Grammar α)} (h : ∀ p ∈ ps, p.Leaves P) :
    (choice ps).Leaves P := fun i => h _ (List.get_mem ps i)

/-- A grammar with spaces around it. -/
def trimmed (p : Grammar α) : Grammar α :=
  .lift3 (fun _ value _ => value) (.zeroOrMoreChars isSpace) p (.zeroOrMoreChars isSpace)

theorem parser_trimmed (p : Grammar α) : p.trimmed.parser = Arith.trimmed p.parser := rfl

theorem Leaves.trimmed {p : Grammar α} (h : p.Leaves P) : p.trimmed.Leaves P :=
  ⟨trivial, h, trivial⟩

/-! ### Numbers -/

/-- A run of decimal digits. -/
def digits : Grammar String :=
  .fold1 (.oneOrMore (.map String.singleton (.satisfy isDigit "expected a digit"))) (· ++ ·)

/-- A sign. -/
def sign : Grammar Char := choice [.char '-', .char '+']

/-- The text of a numeral. -/
def numeral : Grammar Text :=
  .map Prod.snd (.consumed (.lift2 (fun _ _ => ()) (.optional sign) digits))

/-- The value of a numeral that fits in 64 bits. -/
def ofNumeral (text : Text) : Grammar Int64 :=
  match narrow? (numeralValue text) with
  | some value => .pure value
  | none => .fail s!"integer literal out of range: {text}"

/-- A number with the spaces around it. -/
def number : Grammar Int64 := .bind numeral.trimmed ofNumeral

theorem parser_numeral : numeral.parser = Arith.numeral := rfl

theorem parser_ofNumeral (text : Text) : (ofNumeral text).parser = Arith.ofNumeral text := by
  rw [ofNumeral, Arith.ofNumeral]
  cases narrow? (numeralValue text) with
  | some value => rfl
  | none => rfl

theorem parser_number : number.parser = Arith.number := by
  have htrimmed : numeral.trimmed.parser = Arith.trimmed Arith.numeral := by
    rw [parser_trimmed, parser_numeral]
  exact congrArg₂ Parser.bind htrimmed (funext parser_ofNumeral)

theorem leaves_sign : sign.Leaves P :=
  leaves_choice (List.forall_mem_cons.mpr ⟨trivial, List.forall_mem_singleton.mpr trivial⟩)

theorem leaves_numeral : numeral.Leaves P := ⟨leaves_sign, trivial⟩

theorem leaves_ofNumeral (text : Text) : (ofNumeral text).Leaves P := by
  rw [ofNumeral]
  cases narrow? (numeralValue text) with
  | some value => exact trivial
  | none => exact trivial

theorem leaves_number : number.Leaves P := ⟨leaves_numeral.trimmed, leaves_ofNumeral⟩

/-! ### Expressions -/

/-- The token of an operator. -/
def operatorToken (operator : Operator) : Grammar Operator :=
  .map (fun _ => operator) (.literal (.ofString operator.symbol))

/-- An operator with the spaces around it. -/
def binaryOperator : Grammar Operator := (choice (Operator.all.map operatorToken)).trimmed

/-- The result of an operator. -/
def applied (lhs : Int64) (operator : Operator) (rhs : Int64) : Grammar Int64 :=
  match operator.apply lhs rhs with
  | .ok value => .pure value
  | .error e => .fail e.describe

/-- A number, an operator and a number, computed. -/
def operate : Grammar Int64 :=
  .bind (.lift3 (fun lhs operator rhs => (lhs, operator, rhs)) number binaryOperator number)
    fun (lhs, operator, rhs) => applied lhs operator rhs

theorem parser_binaryOperator : binaryOperator.parser = Arith.binaryOperator := by
  rw [binaryOperator, parser_trimmed, parser_choice, List.map_map]
  rfl

theorem parser_applied (lhs rhs : Int64) (operator : Operator) :
    (applied lhs operator rhs).parser = Arith.applied lhs operator rhs := by
  rw [applied, Arith.applied]
  cases operator.apply lhs rhs with
  | ok value => rfl
  | error e => rfl

/-- The parser of expressions is the parser of their grammar. -/
theorem parser_operate : operate.parser = Arith.operate := by
  have hbind : (fun x : Int64 × Operator × Int64 => (applied x.1 x.2.1 x.2.2).parser) =
      fun x => Arith.applied x.1 x.2.1 x.2.2 := funext fun x => parser_applied _ _ _
  have hlift : (Grammar.lift3 (fun lhs operator rhs => (lhs, operator, rhs)) number
      binaryOperator number).parser = Parser.lift3 (fun lhs operator rhs => (lhs, operator, rhs))
        Arith.number Arith.binaryOperator Arith.number := by
    rw [← parser_number, ← parser_binaryOperator]
    rfl
  exact congrArg₂ Parser.bind hlift hbind

theorem leaves_binaryOperator : binaryOperator.Leaves P := by
  refine (leaves_choice fun p hp => ?_).trimmed
  obtain ⟨operator, -, rfl⟩ := List.mem_map.mp hp
  exact trivial

theorem leaves_applied (lhs rhs : Int64) (operator : Operator) :
    (applied lhs operator rhs).Leaves P := by
  rw [applied]
  cases operator.apply lhs rhs with
  | ok value => exact trivial
  | error e => exact trivial

/-- No function of the text takes part in the parser of expressions. -/
theorem leaves_operate : operate.Leaves P :=
  ⟨⟨leaves_number, leaves_binaryOperator, leaves_number⟩, fun _ => leaves_applied _ _ _⟩

end Grammar

end Descent
