import Descent.Parser.Basic
import Descent.Text.Offset

/-!
# Parsers of characters and literal text

`symbol` takes any character, `char` and `satisfy` a character that passes a test,
`literal` a given text, and `oneOrMoreChars` and `zeroOrMoreChars` the longest run of
characters that pass a test. All of them leave a suffix of their input, and fail, if at
all, in a mismatch with a message that shows what was found.
-/

namespace Descent

namespace Parser

/-! ### Single characters -/

/-- Takes one character. -/
def symbol : Parser Char := ofFn fun s =>
  match s.uncons? with
  | some (c, rest) => .success ⟨c, rest⟩
  | none => .failure (.labelled "expected a symbol, got empty string")

/-- Takes one character that passes `test`; `message` says what is wrong with one that
does not. -/
def symbolIf (test : Char → Bool) (message : Char → String) : Parser Char :=
  symbol.bind fun c => if test c then .pure c else fail (message c)

/-- Takes the character `wanted`. -/
def char (wanted : Char) : Parser Char :=
  symbolIf (· == wanted) fun found => s!"expected '{wanted}' but got '{found}'"

/-- Takes one character that passes `test`, which `label` describes. -/
def satisfy (test : Char → Bool) (label : String) : Parser Char :=
  symbolIf test fun found => s!"{label}, got '{found}'"

@[simp] theorem run_symbol_empty :
    symbol.run ∅ = .of (.failure (.labelled "expected a symbol, got empty string")) := rfl

@[simp] theorem run_symbol_cons (c : Char) (s : Text) :
    symbol.run (.cons c s) = .of (.success ⟨c, s⟩) := by simp [symbol]

@[simp] theorem run_symbolIf_empty (test : Char → Bool) (message : Char → String) :
    (symbolIf test message).run ∅ = symbol.run ∅ := rfl

@[simp] theorem run_symbolIf_cons (test : Char → Bool) (message : Char → String) (c : Char)
    (s : Text) : (symbolIf test message).run (.cons c s) =
      .of (if test c then .success ⟨c, s⟩ else .failure (.labelled (message c))) := by
  rw [symbolIf, run_bind, run_symbol_cons, Run.success_andThen]
  split <;> rfl

/-! ### Literal text -/

/-- Takes the text `wanted`. The message of a mismatch shows as many characters of the
input as `wanted` has, or all there are. -/
def literal (wanted : Text) : Parser Text := ofFn fun s =>
  match s.dropPrefix? wanted with
  | some rest => .success ⟨wanted, rest⟩
  | none =>
    let found := s.sliceTo (s.offsetAfter wanted.length) (s.isBoundary_offsetAfter _)
    .failure (.labelled s!"expected '{wanted}', got '{found}' instead")

@[simp] theorem run_literal_append (w s : Text) :
    (literal w).run (w ++ s) = .of (.success ⟨w, s⟩) := by
  simp [literal, Text.dropPrefix?_eq_some.mpr rfl]

theorem run_literal_of_forall_ne {w s : Text} (h : ∀ t, s ≠ w ++ t) :
    (literal w).run s = .of (.failure (.labelled
      s!"expected '{w}', got '{s.take w.length}' instead")) := by
  simp [literal, Text.dropPrefix?_eq_none.mpr h, Text.sliceTo_offsetAfter]

/-! ### Runs of characters -/

/-- Takes the longest run of characters that pass `test`, which must not be empty. -/
def oneOrMoreChars (test : Char → Bool) (label : String) : Parser Text := ofFn fun s =>
  let (found, rest) := s.splitWhile test
  if found.isEmpty then .failure (.labelled s!"{label}: {s}")
  else .success ⟨found, rest⟩

/-- The label of a run of characters that was given none. -/
def charRunLabel : String := "char expectation failed"

/-- Takes the longest run of characters that pass `test`, which must not be empty, and is given
no label. -/
def unlabelledChars (test : Char → Bool) : Parser Text := oneOrMoreChars test charRunLabel

/-- Takes the longest run of characters that pass `test`, which may be empty. -/
def zeroOrMoreChars (test : Char → Bool) : Parser Text := ofFn fun s =>
  let (found, rest) := s.splitWhile test
  .success ⟨found, rest⟩

@[simp] theorem run_oneOrMoreChars (test : Char → Bool) (label : String) (s : Text) :
    (oneOrMoreChars test label).run s =
      .of (if (s.takeWhile test).isEmpty then .failure (.labelled s!"{label}: {s}")
        else .success ⟨s.takeWhile test, s.dropWhile test⟩) := by
  rw [oneOrMoreChars, run_ofFn, Text.splitWhile_eq]

@[simp] theorem run_zeroOrMoreChars (test : Char → Bool) (s : Text) :
    (zeroOrMoreChars test).run s = .of (.success ⟨s.takeWhile test, s.dropWhile test⟩) := by
  rw [zeroOrMoreChars, run_ofFn, Text.splitWhile_eq]

end Parser

end Descent
