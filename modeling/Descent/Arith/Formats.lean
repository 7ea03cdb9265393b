import Descent.Arith.Expression

/-!
# Words, lists and records

Parsers of several items in a row, put together from the ones of tokens.

A word is a run of characters that pass a test. Words are taken as long as there are some, with
the spaces around each of them, and may be counted. A list of integers is one number or more,
with commas between them and spaces around each, and a comma may stand behind the last one.

A record is a number of characters, and in front of them that number in decimal, without a sign.
How many characters are taken is known only when the digits are. The characters are collected in
a list, for which room is made before the first one is taken. There is no list of more than
`capacity` characters, and to ask for one ends the program, without any outcome of the parser;
`overflow` stands for it, and nothing is known of it.
-/

namespace Descent.Arith

open Descent.Parser

/-! ### Words -/

/-- Takes a word with the spaces around it. -/
def word (test : Char → Bool) (label : String) : Parser Text := trimmed (oneOrMoreChars test label)

/-- Takes words, at least one. -/
def words (test : Char → Bool) (label : String) : Parser (List Text) := oneOrMore (word test label)

/-- Takes words and counts them. -/
def wordCount (test : Char → Bool) (label : String) : Parser Nat :=
  (words test label).fold (fun count _ => count + 1) 0

/-! ### Lists of integers -/

/-- Takes one of the numbers. -/
def item : Parser Int64 := trimmed number

/-- Takes a comma and the number behind it. -/
def furtherItem : Parser Int64 := lift2 (fun _ value => value) (char ',') item

/-- Takes numbers with commas between them, and the comma behind them if there is one. -/
def integerList : Parser (List Int64) :=
  lift3 (fun first others _ => first :: others) item (zeroOrMore furtherItem)
    (optional (char ','))

/-! ### Records -/

/-- How many characters there can be a list of: four bytes are kept for each, and a list has
less than `2⁶³` bytes. -/
def capacity : Nat := 0x1FFFFFFFFFFFFFFF

/-- Takes `count` characters, if there is room for them. -/
def characters (overflow : Parser String) (count : Nat) : Parser String :=
  if count ≤ capacity then (Parser.sequence (List.replicate count symbol)).map String.ofList
  else overflow

/-- Takes the characters behind the digits of their number, which may be `limit` at most. -/
def counted (overflow : Parser String) (limit : Nat) (digits : Text) : Parser String :=
  let count := Nat.ofDigitChars 10 digits.chars 0
  if count ≤ limit then characters overflow count else fail "count too large"

/-- Takes a record, and finds its characters. -/
def record (overflow : Parser String) (limit : Nat) (label : String) : Parser String :=
  (oneOrMoreChars isDigit label).bind (counted overflow limit)

end Descent.Arith
