import Descent.Arith.Operator
import Descent.Parser.Chars
import Descent.Parser.Choice
import Descent.Parser.Sequence

/-!
# Expressions

The tokens of arithmetic are numbers and operators, each with the spaces around it. Only the
plain space separates tokens, and only the ASCII digits are digits. A numeral is an optional
sign in front of decimal digits, and its value may be any integer (`numeralValue`); a number
is a numeral whose value fits in 64 bits.

An expression is a number, an operator and a number. `operate` parses one and computes
its value; `evaluate` asks that nothing follows it.
-/

namespace Descent.Arith

open Descent.Parser

/-! ### Spaces -/

/-- Whether a character may stand between tokens. -/
def isSpace (c : Char) : Bool := c == ' '

/-- Takes the spaces there are. -/
def spaces : Parser Text := zeroOrMoreChars isSpace

/-- The parser, skipping the spaces in front of and behind what it takes. -/
def trimmed {α : Type} (p : Parser α) : Parser α :=
  lift3 (fun _ value _ => value) spaces p spaces

/-! ### Numbers -/

/-- Whether a character is a decimal digit. -/
def isDigit (c : Char) : Bool := c.isDigit

/-- Takes a decimal digit. -/
def digit : Parser Char := satisfy isDigit "expected a digit"

/-- Takes a run of decimal digits. -/
def digits : Parser String := (oneOrMore (digit.map String.singleton)).fold1 (· ++ ·)

/-- Takes a sign. -/
def sign : Parser Char := anyOf [char '-', char '+']

/-- Takes the text of a numeral: a sign or none, and digits. -/
def numeral : Parser Text :=
  (consumed (lift2 (fun _ _ => ()) (optional sign) digits)).map Prod.snd

/-- The integer a numeral denotes. -/
def numeralValue (numeral : Text) : Int :=
  match numeral.chars with
  | '-' :: digits => -(Nat.ofDigitChars 10 digits 0)
  | '+' :: digits => Nat.ofDigitChars 10 digits 0
  | digits => Nat.ofDigitChars 10 digits 0

/-- Succeeds with the value of a numeral that fits in 64 bits. -/
def ofNumeral (text : Text) : Parser Int64 :=
  match narrow? (numeralValue text) with
  | some value => pure value
  | none => fail s!"integer literal out of range: {text}"

/-- Takes a number with the spaces around it. -/
def number : Parser Int64 := trimmed numeral >>= ofNumeral

/-! ### Operators -/

/-- Takes the token of an operator. -/
def operatorToken (operator : Operator) : Parser Operator :=
  (literal (.ofString operator.symbol)).map fun _ => operator

/-- Takes an operator with the spaces around it. -/
def binaryOperator : Parser Operator := trimmed (anyOf (Operator.all.map operatorToken))

/-! ### Expressions -/

/-- Succeeds with the result of an operator, or fails with the words for its error. -/
def applied (lhs : Int64) (operator : Operator) (rhs : Int64) : Parser Int64 :=
  match operator.apply lhs rhs with
  | .ok value => pure value
  | .error e => fail e.describe

/-- Takes a number, an operator and a number, and computes. -/
def operate : Parser Int64 :=
  lift3 (fun lhs operator rhs => (lhs, operator, rhs)) number binaryOperator number >>=
    fun (lhs, operator, rhs) => applied lhs operator rhs

/-- The value of a text that is one expression and nothing else. -/
def evaluate (s : Text) : Except ParseError Int64 :=
  match operate.parse s with
  | .failure e => .error e
  | .success ⟨value, rest⟩ =>
    if rest.isEmpty then .ok value
    else .error (.labelled s!"unexpected trailing input: '{rest}'")

end Descent.Arith
