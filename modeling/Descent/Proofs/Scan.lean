import Descent.Arith.Expression
import Descent.Proofs.LongestRun
import Descent.Proofs.Repetition
import Descent.Proofs.Inversion

/-!
# Scanning character by character

A repetition of a parser of single characters takes the longest run of characters that
pass its test, just as the scan of `oneOrMoreChars` does, and finds each of them
(`run_oneOrMore_satisfy`). `digits` is such a repetition with the characters put together
again, so that it is a scan, too (`run_digits`). What `trimmed` does is said by the two
longest runs of spaces it skips (`parse_trimmed_eq_success`).
-/

namespace Descent

namespace Parser

variable {α : Type} {test : Char → Bool} {label : String} {c : Char} {s : Text}

theorem run_satisfy_cons_pos (h : test c = true) (s : Text) :
    (satisfy test label).run (.cons c s) = .of (.success ⟨c, s⟩) := by
  rw [satisfy, run_symbolIf_cons, if_pos h]

/-- What is said, under the label of a test, of a text that stops it. -/
def unsatisfied (label : String) (s : Text) : String :=
  match s.uncons? with
  | some (c, _) => s!"{label}, got '{c}'"
  | none => "expected a symbol, got empty string"

/-- A text that stops the test is a mismatch. -/
theorem run_satisfy_of_stops (label : String) (h : s.Stops test) :
    (satisfy test label).run s = .of (.failure (.labelled (unsatisfied label s))) := by
  cases s with
  | empty => rfl
  | cons c s =>
    rw [satisfy, run_symbolIf_cons, Text.stops_cons.mp h, if_neg Bool.false_ne_true, unsatisfied,
      Text.uncons?_cons]

theorem parse_satisfy_eq_failure {e : ParseError} :
    (satisfy test label).parse s = .failure e ↔
      s.Stops test ∧ e = .labelled (unsatisfied label s) := by
  constructor
  · intro h
    have hstop : s.Stops test := by
      cases s with
      | empty => exact Text.stops_empty
      | cons c s =>
        cases hc : test c with
        | true =>
          rw [parse, run_satisfy_cons_pos hc] at h
          cases h
        | false => exact Text.stops_cons.mpr hc
    rw [parse, run_satisfy_of_stops label hstop] at h
    cases h
    exact ⟨hstop, rfl⟩
  · rintro ⟨hstop, rfl⟩
    rw [parse, run_satisfy_of_stops label hstop, Run.outcome_of]

theorem run_char_cons (c : Char) (s : Text) :
    (char c).run (.cons c s) = .of (.success ⟨c, s⟩) := by
  rw [char, run_symbolIf_cons, if_pos (beq_self_eq_true c)]

theorem parse_char_of_stops (h : s.Stops (· == c)) :
    ∃ m, (char c).parse s = .failure (.mismatch m) := by
  cases s with
  | empty => exact ⟨_, rfl⟩
  | cons d s =>
    rw [parse, char, run_symbolIf_cons, Text.stops_cons.mp h]
    exact ⟨_, rfl⟩

/-! ### One scan -/

/-- A scan takes the characters that pass in front of a text that stops the test, at least
one. -/
theorem parse_oneOrMoreChars_eq_success {w r : Text} :
    (oneOrMoreChars test label).parse s = .success ⟨w, r⟩ ↔
      w ≠ ∅ ∧ w.All test ∧ r.Stops test ∧ s = w ++ r := by
  rw [parse, run_oneOrMoreChars, Run.outcome_of]
  simp only [Text.isEmpty_iff]
  constructor
  · intro h
    split at h
    · cases h
    · next hne =>
      cases h
      exact ⟨hne, s.all_takeWhile test, s.stops_dropWhile test,
        (s.takeWhile_append_dropWhile test).symm⟩
  · rintro ⟨hne, hall, hstop, rfl⟩
    rw [Text.takeWhile_append_of_stops hall hstop, Text.dropWhile_append_of_stops hall hstop,
      if_neg hne]

/-- Where there is no such character it fails, and shows all of the text. -/
theorem parse_oneOrMoreChars_eq_failure {e : ParseError} :
    (oneOrMoreChars test label).parse s = .failure e ↔
      s.Stops test ∧ e = .labelled s!"{label}: {s}" := by
  rw [parse, run_oneOrMoreChars, Run.outcome_of, ← Text.takeWhile_eq_empty]
  simp only [Text.isEmpty_iff]
  constructor
  · intro h
    split at h
    · next hempty =>
      cases h
      exact ⟨hempty, rfl⟩
    · cases h
  · rintro ⟨hempty, rfl⟩
    rw [if_pos hempty]

/-! ### Rounds over characters -/

theorem rounds_satisfy_cons (f : Char → α) (n k : Nat) (h : test c = true) (s : Text) :
    rounds ((satisfy test label).map f) n k (.cons c s) =
      (rounds ((satisfy test label).map f) n (k + 1) s).map (f c :: ·) := by
  have hrun : ((satisfy test label).map f).run (.cons c s) = .of (.success ⟨f c, s⟩) := by
    rw [run_map, run_satisfy_cons_pos h]; rfl
  have hlt : s.size < (Text.cons c s).size := by
    have := c.utf8Size_pos
    rw [Text.size_cons]
    omega
  rw [rounds_of_lt (a := ⟨f c, s⟩) (by rw [parse, hrun, Run.outcome_of]) hlt, hrun, Run.log_of,
    Run.after_nil]

theorem rounds_satisfy_of_stops (f : Char → α) (n k : Nat) (h : s.Stops test) :
    rounds ((satisfy test label).map f) n k s =
      if k = 0 then ((satisfy test label).run s).map fun c => [f c]
      else .of (.success ⟨[], s⟩) := by
  have hm := run_satisfy_of_stops label h
  have hrun : ((satisfy test label).map f).run s =
      .of (.failure (.labelled (unsatisfied label s))) := by
    rw [run_map, hm]; rfl
  have hparse : ((satisfy test label).map f).parse s =
      .failure (.labelled (unsatisfied label s)) := by
    rw [parse, hrun, Run.outcome_of]
  rw [rounds_of_failure hparse, hrun, hm]
  cases k <;> rfl

/-- Behind a success the rounds take the longest run, which may be empty. -/
theorem rounds_satisfy_succ (f : Char → α) (n k : Nat) (s : Text) :
    rounds ((satisfy test label).map f) n (k + 1) s =
      .of (.success ⟨(s.takeWhile test).chars.map f, s.dropWhile test⟩) := by
  induction s generalizing k with
  | empty => rw [rounds_satisfy_of_stops f n _ Text.stops_empty]; rfl
  | cons c s ih =>
    cases hc : test c with
    | true =>
      rw [rounds_satisfy_cons f n _ hc, ih, Text.takeWhile_cons_pos hc, Text.dropWhile_cons_pos hc]
      rfl
    | false =>
      have hstop : (Text.cons c s).Stops test := Text.stops_cons.mpr hc
      rw [rounds_satisfy_of_stops f n _ hstop, Text.takeWhile_of_stops hstop,
        Text.dropWhile_of_stops hstop]
      rfl

/-- A repetition over single characters takes the longest run. Where there is none it
fails as the parser of one character does. -/
theorem run_oneOrMore_satisfy (f : Char → α) (s : Text) :
    (oneOrMore ((satisfy test label).map f)).run s =
      if s.takeWhile test = ∅ then ((satisfy test label).run s).map fun c => [f c]
      else .of (.success ⟨(s.takeWhile test).chars.map f, s.dropWhile test⟩) := by
  rw [run_oneOrMore]
  split
  · next hempty =>
    rw [rounds_satisfy_of_stops f _ _ (Text.takeWhile_eq_empty.mp hempty), if_pos rfl]
  · next hne =>
    cases s with
    | empty => exact absurd rfl hne
    | cons c s =>
      cases hc : test c with
      | true =>
        rw [rounds_satisfy_cons f _ _ hc, rounds_satisfy_succ, Text.takeWhile_cons_pos hc,
          Text.dropWhile_cons_pos hc]
        rfl
      | false => exact absurd (Text.takeWhile_cons_neg hc) hne

end Parser

namespace Arith

open Descent.Parser

/-! ### Spaces -/

/-- A text of `n` spaces. -/
def blank (n : Nat) : Text := .ofList (List.replicate n ' ')

theorem all_blank (n : Nat) : (blank n).All isSpace := by
  intro c hc
  obtain ⟨-, rfl⟩ := List.mem_replicate.mp hc
  rfl

/-- A text of spaces only is that many spaces. -/
theorem eq_blank_of_all {a : Text} (h : a.All isSpace) : a = blank a.length := by
  apply Text.ext
  exact List.eq_replicate_of_mem fun c hc => eq_of_beq (h c hc)

/-- The parser starts behind the spaces, and the spaces it leaves are skipped. -/
theorem run_trimmed {α : Type} (p : Parser α) (s : Text) :
    (trimmed p).run s = (p.run (s.dropWhile isSpace)).andThen fun a =>
      .of (.success ⟨a.value, a.rest.dropWhile isSpace⟩) := by
  rw [trimmed, run_lift3, spaces, run_zeroOrMoreChars, Run.success_andThen, run_lift2]
  simp only [run_zeroOrMoreChars]
  rfl

/-- A trimmed parser succeeds where the parser does behind the spaces in front. -/
theorem parse_trimmed_eq_success_iff {α : Type} {p : Parser α} {s r : Text} {v : α} :
    (trimmed p).parse s = .success ⟨v, r⟩ ↔
      ∃ t, p.parse (s.dropWhile isSpace) = .success ⟨v, t⟩ ∧ r = t.dropWhile isSpace := by
  rw [parse, run_trimmed, Run.outcome_andThen_eq_success]
  constructor
  · rintro ⟨⟨v, t⟩, h, ⟨⟩⟩
    exact ⟨t, h, rfl⟩
  · rintro ⟨t, h, rfl⟩
    exact ⟨⟨v, t⟩, h, rfl⟩

/-- A trimmed parser succeeds on spaces in front of a text on which the parser does. -/
theorem parse_trimmed_eq_success {α : Type} {p : Parser α} {s r : Text} {v : α} :
    (trimmed p).parse s = .success ⟨v, r⟩ ↔
      ∃ a t b : Text, a.All isSpace ∧ t.Stops isSpace ∧ b.All isSpace ∧ r.Stops isSpace ∧
        s = a ++ t ∧ p.parse t = .success ⟨v, b ++ r⟩ := by
  rw [parse_trimmed_eq_success_iff]
  constructor
  · rintro ⟨t, h, rfl⟩
    refine ⟨s.takeWhile isSpace, s.dropWhile isSpace, t.takeWhile isSpace, s.all_takeWhile isSpace,
      s.stops_dropWhile isSpace, t.all_takeWhile isSpace, t.stops_dropWhile isSpace,
      (s.takeWhile_append_dropWhile isSpace).symm, ?_⟩
    rw [t.takeWhile_append_dropWhile isSpace]
    exact h
  · rintro ⟨a, t, b, ha, ht, hb, hr, rfl, h⟩
    refine ⟨b ++ r, ?_, (Text.dropWhile_append_of_stops hb hr).symm⟩
    rw [Text.dropWhile_append_of_stops ha ht]
    exact h

/-! ### Digits -/

/-- Characters put together one after the other are the string of them. -/
theorem foldl_singleton (w : String) (cs : List Char) :
    (cs.map String.singleton).foldl (· ++ ·) w = w ++ String.ofList cs := by
  induction cs generalizing w with
  | nil => simp
  | cons c cs ih =>
    rw [List.map_cons, List.foldl_cons, ih, String.append_assoc, String.singleton_eq_ofList,
      ← String.ofList_append, List.singleton_append]

theorem run_digit_of_stops {s : Text} (h : s.Stops isDigit) :
    digit.run s = .of (.failure (.labelled (unsatisfied "expected a digit" s))) :=
  run_satisfy_of_stops "expected a digit" h

/-- `digits` takes the longest run of digits, and fails as `digit` does where there is
none. -/
theorem run_digits (s : Text) :
    digits.run s =
      if s.takeWhile isDigit = ∅ then (digit.run s).map String.singleton
      else .of (.success ⟨(s.takeWhile isDigit).toString, s.dropWhile isDigit⟩) := by
  rw [digits, run_fold1, digit, run_oneOrMore_satisfy]
  split
  · next hempty =>
    rw [← digit, run_digit_of_stops (Text.takeWhile_eq_empty.mp hempty)]
    rfl
  · next hne =>
    rw [Run.success_andThen]
    cases h : (s.takeWhile isDigit).chars with
    | nil => exact absurd (Text.ext h) hne
    | cons c cs =>
      rw [List.map_cons]
      dsimp only
      rw [foldl_singleton, String.singleton_eq_ofList, ← String.ofList_append,
        Text.toString, h, List.singleton_append]

end Arith

end Descent
