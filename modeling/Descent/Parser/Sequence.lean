import Descent.Parser.Basic

/-!
# Sequences and folds

`sequence ps` runs the parsers of a list one after the other and lists their values. The
list may be long (one parser a character, say), so it is walked by a loop that keeps what
was found so far; `sequence_nil` and `sequence_cons` say what the loop computes.

A parser of a list, such as a sequence, becomes a parser of what a left fold makes of the
list: from a seed (`fold`), or from the first element (`fold1`), which needs the list not
to be empty.
-/

namespace Descent

namespace Parser

variable {α β : Type}

/-! ### Sequences -/

/-- Runs the parsers of a list in a row; `log` and `values` are what the parsers before
them wrote and found, last first. -/
def sequenceLoop (log : Log) (values : List α) : List (Parser α) → Text → Run (List α)
  | [], s => ⟨log.reverse, .success ⟨values.reverse, s⟩⟩
  | p :: ps, s =>
    let r := p.run s
    match r.outcome with
    | .success a => sequenceLoop (Log.write log r.log) (a.value :: values) ps a.rest
    | .failure e => ⟨(Log.write log r.log).reverse, .failure e⟩

/-- Runs the parsers of a list in a row. -/
def sequence (ps : List (Parser α)) : Parser (List α) := ⟨sequenceLoop [] [] ps⟩

/-- What was found before the loop stands in front of what it finds. -/
theorem sequenceLoop_eq (log : Log) (values : List α) (ps : List (Parser α)) (s : Text) :
    sequenceLoop log values ps s =
      (((sequence ps).run s).map (values.reverse ++ ·)).after log.reverse := by
  induction ps generalizing log values s with
  | nil => simp [sequence, sequenceLoop, Run.map, Run.after, Success.map]
  | cons p ps ih =>
    simp only [sequence, sequenceLoop]
    cases (p.run s).outcome with
    | success a =>
      simp only [ih]
      simp [Run.map, Run.after, Function.comp_def]
    | failure e => simp [Run.map, Run.after]

/-- No parser finds no value. -/
theorem sequence_nil : sequence ([] : List (Parser α)) = Parser.pure [] := rfl

/-- The first parser's value stands in front of the values of the others. -/
theorem sequence_cons (p : Parser α) (ps : List (Parser α)) :
    sequence (p :: ps) = lift2 (fun a as => a :: as) p (sequence ps) := by
  ext s : 1
  rw [run_lift2, Run.andThen]
  simp only [sequence, sequenceLoop]
  cases (p.run s).outcome with
  | success a => simp only [sequenceLoop_eq]; simp [sequence, Function.comp_def]
  | failure e => simp

/-! ### Folds -/

/-- Folds the values from the left, starting with `seed`. -/
def fold (p : Parser (List α)) (combine : β → α → β) (seed : β) : Parser β :=
  p.map fun values => values.foldl combine seed

/-- Folds the values from the left, starting with the first; no value at all is a breach. -/
def fold1 (p : Parser (List α)) (combine : α → α → α) : Parser α :=
  p.bind fun values => ofFn fun s =>
    match values with
    | [] => .failure (.breach .emptyFold)
    | first :: others => .success ⟨others.foldl combine first, s⟩

@[simp] theorem run_fold (p : Parser (List α)) (combine : β → α → β) (seed : β) (s : Text) :
    (p.fold combine seed).run s = (p.run s).map fun values => values.foldl combine seed := rfl

theorem run_fold1 (p : Parser (List α)) (combine : α → α → α) (s : Text) :
    (p.fold1 combine).run s = (p.run s).andThen fun a =>
      match a.value with
      | [] => .of (.failure (.breach .emptyFold))
      | first :: others => .of (.success ⟨others.foldl combine first, a.rest⟩) := by
  rw [fold1, run_bind]
  congr 1
  funext ⟨values, rest⟩
  cases values <;> rfl

end Parser

end Descent
