import Descent.Parser.Sequence
import Descent.Parser.Basic
import Descent.Proofs.Laws
import Descent.Proofs.OrderedChoice
import Descent.Proofs.Scan

/-!
# Values do not steer parsing

No combinator looks at the values that are found: how it goes on, what it leaves and how it
fails depend on whether there is a value, and never on which. So it makes no difference
whether a function is applied to each value as it is found, or in the end to all that was
found (`map_natural`). The equations are between parsers: errors, the counts in them and the
log are the same, too.

For the repetitions this is an induction along the rounds: those of the parser with its values
mapped are the rounds of the parser (`rounds_map`).
-/

namespace Descent

namespace Parser

variable {α β γ : Type}

/-! ### Rounds -/

/-- The rounds go through the same texts and end in the same way. -/
theorem rounds_map (f : α → β) (p : Parser α) (n k : Nat) (s : Text) :
    rounds (p.map f) n k s = (rounds p n k s).map (List.map f) := by
  have hsuccess {t : Text} {a : Success α} (h : (p.run t).outcome = .success a) :
      (p.map f).parse t = .success (a.map f) := by
    rw [parse_map, parse, h, Outcome.map_success]
  -- along the rounds of the parser, which those of the mapped one repeat
  fun_induction rounds p n k s with
  | case1 n k s a h hlt ih =>
    rw [rounds_of_lt (hsuccess h) hlt, Success.rest_map, ih]
    simp [Function.comp_def]
  | case2 n k s a h hlt heq => rw [rounds_of_eq (hsuccess h) heq]; rfl
  | case3 k s a h hlt hne =>
    rw [rounds_of_gt_zero (hsuccess h) (by rw [Success.rest_map]; omega)]
    rfl
  | case4 k s a h hlt hne n ih =>
    rw [rounds_of_gt (hsuccess h) (by rw [Success.rest_map]; omega), Success.rest_map, ih]
    simp [Function.comp_def]
  | case5 n k s e h =>
    have hfailure : (p.map f).parse s = .failure e := by
      rw [parse_map, parse, h, Outcome.map_failure]
    rw [rounds_of_failure hfailure]
    split <;> rfl

theorem oneOrMore_map (f : α → β) (p : Parser α) :
    oneOrMore (p.map f) = (oneOrMore p).map (List.map f) := by
  apply ext
  intro s
  rw [run_oneOrMore, rounds_map, run_map, run_oneOrMore]

theorem zeroOrMore_map (f : α → β) (p : Parser α) :
    zeroOrMore (p.map f) = (zeroOrMore p).map (List.map f) := by
  rw [zeroOrMore_eq_or, oneOrMore_map, zeroOrMore_eq_or, map_or]
  rfl

/-! ### One success -/

theorem optional_map (f : α → β) (p : Parser α) :
    optional (p.map f) = (optional p).map (Option.map f) := by
  rw [optional_eq_or, map_map, optional_eq_or, map_or, map_map]
  rfl

theorem consumed_map (f : α → β) (p : Parser α) :
    consumed (p.map f) = (consumed p).map (Prod.map f id) := by
  apply ext
  intro s
  rw [run_consumed, run_map, Run.map_andThen, run_map, run_consumed, Run.andThen_map]
  congr 1
  funext a
  rw [Success.rest_map]
  cases s.segment? a.rest with
  | some t => rfl
  | none => rfl

theorem trimmed_map (f : α → β) (p : Parser α) :
    Arith.trimmed (p.map f) = (Arith.trimmed p).map f := by
  apply ext
  intro s
  rw [Arith.run_trimmed, run_map, Run.map_andThen, run_map, Arith.run_trimmed, Run.andThen_map]
  rfl

theorem traced_map (label : String) (f : α → β) (p : Parser α) :
    traced label (p.map f) = (traced label p).map f := by
  apply ext
  intro s
  apply Run.ext
  · rw [log_run_traced, run_map, Run.log_map, Run.outcome_map, run_map, Run.log_map, log_run_traced]
    cases (p.run s).outcome <;> rfl
  · rw [outcome_run_traced, run_map, run_map, Run.outcome_map, Run.outcome_map, outcome_run_traced]

/-! ### Lists -/

theorem sequence_map (f : α → β) (ps : List (Parser α)) :
    sequence (ps.map (Parser.map f)) = (sequence ps).map (List.map f) := by
  induction ps with
  | nil => rfl
  | cons p ps ih =>
    rw [List.map_cons, sequence_cons, ih, lift2_map_right, lift2_map_left, sequence_cons, map_lift2]
    rfl

theorem fold_map_map (p : Parser (List α)) (f : α → β) (combine : γ → β → γ) (seed : γ) :
    (p.map (List.map f)).fold combine seed = p.fold (fun c a => combine c (f a)) seed := by
  have hfold : (fun bs : List β => bs.foldl combine seed) ∘ List.map f =
      fun as => as.foldl (fun c a => combine c (f a)) seed := funext fun _ => List.foldl_map
  rw [fold, map_map, hfold, fold]

/-- **What is done with a value may be done later.** To apply a function to each value before a
repetition or a sequence lists it is to apply it to each element of the list; and to apply it
before a choice, an option, `consumed`, `trimmed` or a trace is to apply it behind. To fold
values that were mapped is to map each of them as it is folded in. In no case does this change
what is left, how it fails, or what is invoked. -/
theorem map_natural (f : α → β) :
    (∀ p, oneOrMore (p.map f) = (oneOrMore p).map (List.map f)) ∧
    (∀ p, zeroOrMore (p.map f) = (zeroOrMore p).map (List.map f)) ∧
    (∀ ps, sequence (ps.map (Parser.map f)) = (sequence ps).map (List.map f)) ∧
    (∀ ps, anyOf (ps.map (Parser.map f)) = (anyOf ps).map f) ∧
    (∀ p, optional (p.map f) = (optional p).map (Option.map f)) ∧
    (∀ p, consumed (p.map f) = (consumed p).map (Prod.map f id)) ∧
    (∀ p, Arith.trimmed (p.map f) = (Arith.trimmed p).map f) ∧
    (∀ label p, traced label (p.map f) = (traced label p).map f) ∧
    ∀ (p : Parser (List α)) (combine : γ → β → γ) seed,
      (p.map (List.map f)).fold combine seed = p.fold (fun c a => combine c (f a)) seed :=
  ⟨oneOrMore_map f, zeroOrMore_map f, sequence_map f, fun ps => (map_anyOf f ps).symm,
    optional_map f, consumed_map f, trimmed_map f, fun label p => traced_map label f p,
    fun p combine seed => fold_map_map p f combine seed⟩

end Parser

end Descent
