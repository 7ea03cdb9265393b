import Descent.Proofs.Consumed
import Descent.Proofs.Inversion
import Descent.Proofs.Laws
import Descent.Proofs.Scan

/-!
# Runs of characters, twice

A run of characters that pass a test can be taken in two ways: by one scan of the text
(`oneOrMoreChars`, `zeroOrMoreChars`), or by repeating the parser of one such character
and asking which text that consumed. The repetition goes from character to character,
looks at the sizes of the remainders to see that it gets on, and the text it consumed is
found by a difference of sizes; it comes out as the text that the scan cuts off, for
characters of any width (`charRun_eq_consumed_repetition`).

The digits of a number are taken in a third way, by putting the characters of the repetition
together again, from the first one on. That is the same scan (`digits_eq_charRun`), and since a
repetition finds something if it succeeds, and something shorter each time, no digit is missing
when they are put together.
-/

namespace Descent

namespace Parser

variable {test : Char → Bool}

/-- The characters of the longest run, one by one. -/
theorem run_oneOrMore_satisfy_chars (label : String) (s : Text) :
    (oneOrMore (satisfy test label)).run s =
      if s.takeWhile test = ∅ then .of (.failure (.labelled (unsatisfied label s)))
      else .of (.success ⟨(s.takeWhile test).chars, s.dropWhile test⟩) := by
  have h : (oneOrMore ((satisfy test label).map id)).run s = _ := run_oneOrMore_satisfy id s
  rw [map_id, List.map_id] at h
  rw [h]
  by_cases hempty : s.takeWhile test = ∅
  · rw [if_pos hempty, if_pos hempty,
      run_satisfy_of_stops label (Text.takeWhile_eq_empty.mp hempty)]
    rfl
  · rw [if_neg hempty, if_neg hempty]

theorem run_zeroOrMore_satisfy_chars (label : String) (s : Text) :
    (zeroOrMore (satisfy test label)).run s =
      .of (.success ⟨(s.takeWhile test).chars, s.dropWhile test⟩) := by
  rw [run_zeroOrMore, run_oneOrMore_satisfy_chars]
  by_cases hempty : s.takeWhile test = ∅
  · rw [if_pos hempty, Run.mismatch_orElse, hempty,
      Text.dropWhile_of_stops (Text.takeWhile_eq_empty.mp hempty), Text.chars_empty]
  · rw [if_neg hempty, Run.success_orElse]

/-- The repetition consumed what the scan takes, if there is something. -/
theorem parse_consumed_oneOrMore_satisfy (label : String) (s : Text) :
    (consumed (oneOrMore (satisfy test label))).parse s =
      if s.takeWhile test = ∅ then .failure (.labelled (unsatisfied label s))
      else .success ⟨((s.takeWhile test).chars, s.takeWhile test), s.dropWhile test⟩ := by
  have hrun : (oneOrMore (satisfy test label)).run s = _ := run_oneOrMore_satisfy_chars label s
  by_cases hempty : s.takeWhile test = ∅
  · rw [if_pos hempty] at hrun ⊢
    rw [parse, run_consumed, hrun, Run.failure_andThen, Run.outcome_of]
  · rw [if_neg hempty] at hrun ⊢
    have hparse : (oneOrMore (satisfy test label)).parse s = _ := congrArg Run.outcome hrun
    rw [parse, run_consumed_of_suffix hparse (s.takeWhile_append_dropWhile test).symm]

/-- The scan that may take nothing is the repetition that may. -/
theorem consumed_zeroOrMore_satisfy (label : String) :
    consumed (zeroOrMore (satisfy test label)) =
      (zeroOrMoreChars test).map fun found => (found.chars, found) := by
  apply ext
  intro s
  have hrun : (zeroOrMore (satisfy test label)).run s = _ :=
    run_zeroOrMore_satisfy_chars label s
  have hparse : (zeroOrMore (satisfy test label)).parse s = _ := congrArg Run.outcome hrun
  rw [run_consumed_of_suffix hparse (s.takeWhile_append_dropWhile test).symm, hrun, run_map,
    run_zeroOrMoreChars]
  rfl

/-- **A scan is a repetition of characters, consumed.** On every text `s`
* the scan for at least one character that passes the test succeeds with `found` and
  `rest` if and only if the consumed text of the repetition over single characters is
  `found`, its remainder `rest`, and the characters it collected are those of `found`;
* where the one does not succeed, both mismatch, each under its own label;
* the scan that may take nothing and the repetition that may both succeed, with the same
  text and the same remainder. -/
theorem charRun_eq_consumed_repetition (test : Char → Bool) (label label' : String) (s : Text) :
    (∀ cs found rest,
      (consumed (oneOrMore (satisfy test label'))).parse s = .success ⟨(cs, found), rest⟩ ↔
        (oneOrMoreChars test label).parse s = .success ⟨found, rest⟩ ∧ found = .ofList cs) ∧
    ((∃ a, (oneOrMoreChars test label).parse s = .success a) ∨
      (∃ m, (oneOrMoreChars test label).parse s = .failure (.mismatch m)) ∧
        ∃ m, (consumed (oneOrMore (satisfy test label'))).parse s = .failure (.mismatch m)) ∧
    ∃ cs found rest, (zeroOrMoreChars test).parse s = .success ⟨found, rest⟩ ∧
      found = .ofList cs ∧
      (consumed (zeroOrMore (satisfy test label'))).parse s = .success ⟨(cs, found), rest⟩ := by
  have hscan : (oneOrMoreChars test label).parse s =
      if s.takeWhile test = ∅ then .failure (.labelled s!"{label}: {s}")
      else .success ⟨s.takeWhile test, s.dropWhile test⟩ := by
    rw [parse, run_oneOrMoreChars, Run.outcome_of]
    simp only [Text.isEmpty_iff]
  have hloop : (consumed (oneOrMore (satisfy test label'))).parse s = _ :=
    parse_consumed_oneOrMore_satisfy label' s
  refine ⟨fun cs found rest => ?_, ?_, ?_⟩
  · rw [hscan, hloop]
    by_cases hempty : s.takeWhile test = ∅
    · rw [if_pos hempty, if_pos hempty]
      simp
    · rw [if_neg hempty, if_neg hempty]
      constructor
      · intro h
        cases h
        exact ⟨rfl, (Text.ofList_chars _).symm⟩
      · intro h
        obtain ⟨h, hcs⟩ := h
        cases h
        rw [hcs, Text.chars_ofList]
  · rw [hscan, hloop]
    by_cases hempty : s.takeWhile test = ∅
    · rw [if_pos hempty, if_pos hempty]
      exact Or.inr ⟨⟨_, rfl⟩, ⟨_, rfl⟩⟩
    · rw [if_neg hempty]
      exact Or.inl ⟨_, rfl⟩
  · refine ⟨(s.takeWhile test).chars, s.takeWhile test, s.dropWhile test,
      congrArg Run.outcome (run_zeroOrMoreChars test s), (Text.ofList_chars _).symm, ?_⟩
    rw [consumed_zeroOrMore_satisfy, parse, run_map, run_zeroOrMoreChars]
    rfl

end Parser

namespace Arith

open Descent.Parser

variable {s : Text} {e : ParseError}

/-! ### Digits -/

/-- The string put together of single digits is the text that a scan finds. -/
theorem parse_digits_eq_success (label : String) {w : String} {r : Text} :
    digits.parse s = .success ⟨w, r⟩ ↔
      (oneOrMoreChars isDigit label).parse s = .success ⟨.ofString w, r⟩ := by
  rw [parse, run_digits, parse, run_oneOrMoreChars, Run.outcome_of]
  simp only [Text.isEmpty_iff]
  by_cases hempty : s.takeWhile isDigit = ∅
  · rw [if_pos hempty, if_pos hempty, run_digit_of_stops (Text.takeWhile_eq_empty.mp hempty)]
    exact iff_of_false nofun nofun
  · rw [if_neg hempty, if_neg hempty]
    constructor
    · intro h
      cases h
      rw [Text.ofString_toString]
    · intro h
      rw [Outcome.success.injEq, Success.mk.injEq] at h
      obtain ⟨hw, rfl⟩ := h
      rw [Run.outcome_of, hw, Text.toString_ofString]

/-- Where no digits are found, it is the first one that is missing. -/
theorem parse_digits_eq_failure : digits.parse s = .failure e ↔ digit.parse s = .failure e := by
  rw [parse, run_digits]
  by_cases hempty : s.takeWhile isDigit = ∅
  · rw [if_pos hempty]
    exact Run.outcome_map_eq_failure
  · rw [if_neg hempty, digit, parse_satisfy_eq_failure, ← Text.takeWhile_eq_empty]
    constructor
    · intro h
      cases h
    · intro h
      exact absurd h.1 hempty

/-- **Digits are one run of characters.** The string that `digits` puts together of single
digits, and what it leaves, are those of the scan for digits, under any label: all the digits at
the front of the text, at least one, and behind them a text that does not go on with a digit.
Where there are none `digits` fails as `digit` does, and never in a breach, for there is
progress with each digit and always one to begin with. -/
theorem digits_eq_charRun (label : String) (s : Text) :
    (∀ w r, digits.parse s = .success ⟨w, r⟩ ↔
      (oneOrMoreChars isDigit label).parse s = .success ⟨.ofString w, r⟩) ∧
    (∀ w r, digits.parse s = .success ⟨w, r⟩ ↔ Text.ofString w ≠ ∅ ∧
      (Text.ofString w).All isDigit ∧ r.Stops isDigit ∧ s = .ofString w ++ r) ∧
    (∀ e, digits.parse s = .failure e ↔ digit.parse s = .failure e) ∧
    ∀ b, digits.parse s ≠ .failure (.breach b) := by
  refine ⟨fun w r => parse_digits_eq_success label, fun w r => ?_,
    fun e => parse_digits_eq_failure, fun b h => ?_⟩
  · rw [parse_digits_eq_success label, parse_oneOrMoreChars_eq_success]
  · obtain ⟨-, he⟩ := parse_satisfy_eq_failure.mp (parse_digits_eq_failure.mp h)
    cases he

example : digits.parse (.ofString "007up") = .success ⟨"007", .ofString "up"⟩ :=
  (parse_digits_eq_success "").mpr rfl

end Arith

end Descent
