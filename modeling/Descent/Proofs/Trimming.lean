import Descent.Arith.Expression
import Descent.Proofs.Numeral

/-!
# Spaces around a parser

`trimmed` starts its parser behind the spaces in front, however many there are, and skips those
the parser leaves. So it skips spaces (`SkipsSpaces`) and leaves none (`LeavesNoSpace`), whatever
the parser does. Where a parser has both properties by itself, to trim it changes nothing
(`SkipsSpaces.trimmed_eq`); this is the case for a parser that is trimmed already, for operators,
and for numbers, where a test that takes nothing stands behind the trimmed numeral.

Spaces are skipped by whatever comes first. Therefore they may be put in front of an expression,
too, without any effect: not even a message shows them.
-/

namespace Descent

namespace Arith

open Descent.Parser

variable {α β γ δ : Type} {p : Parser α}

/-! ### Spaces in front -/

/-- The parser does on every text what it does behind the spaces in front. -/
def SkipsSpaces (p : Parser α) : Prop := ∀ s, p.run (s.dropWhile isSpace) = p.run s

theorem SkipsSpaces.run_blank_append (hp : SkipsSpaces p) (k : Nat) (s : Text) :
    p.run (blank k ++ s) = p.run s := by
  rw [← hp, Text.dropWhile_append_of_all (all_blank k), hp]

theorem skipsSpaces_trimmed (p : Parser α) : SkipsSpaces (trimmed p) := by
  intro s
  rw [run_trimmed, run_trimmed, Text.dropWhile_of_stops (s.stops_dropWhile isSpace)]

/-- What comes first skips them for what comes behind. -/
theorem SkipsSpaces.bind (hp : SkipsSpaces p) (f : α → Parser β) : SkipsSpaces (p.bind f) := by
  intro s
  rw [run_bind, run_bind, hp]

theorem SkipsSpaces.lift3 (hp : SkipsSpaces p) (f : α → β → γ → δ) (q : Parser β) (r : Parser γ) :
    SkipsSpaces (Parser.lift3 f p q r) := by
  intro s
  rw [run_lift3, run_lift3, hp]

/-! ### Spaces behind -/

/-- No success leaves a text that begins with a space. -/
def LeavesNoSpace (p : Parser α) : Prop :=
  ∀ s a, p.parse s = .success a → a.rest.Stops isSpace

theorem leavesNoSpace_trimmed (p : Parser α) : LeavesNoSpace (trimmed p) := by
  intro s a ha
  obtain ⟨t, -, hr⟩ := parse_trimmed_eq_success_iff.mp ha
  rw [hr]
  exact t.stops_dropWhile isSpace

/-- What goes on without taking anything leaves what was left. -/
theorem LeavesNoSpace.bind (hp : LeavesNoSpace p) {f : α → Parser β}
    (hf : ∀ v t b, (f v).parse t = .success b → b.rest = t) : LeavesNoSpace (p.bind f) := by
  intro s b hb
  obtain ⟨a, ha, hb⟩ := parse_bind_eq_success.mp hb
  rw [hf _ _ _ hb]
  exact hp s a ha

/-! ### The parser within -/

theorem log_run_trimmed (p : Parser α) (s : Text) :
    ((trimmed p).run s).log = (p.run (s.dropWhile isSpace)).log := by
  rw [run_trimmed]
  exact Run.log_andThen_of_forall (fun _ => rfl) _

/-- A parser that is traced is invoked on the text behind the spaces. -/
theorem calls_run_trimmed_traced (label : String) (p : Parser α) (s : Text) :
    Log.calls ((trimmed (traced label p)).run s).log =
      (label, s.dropWhile isSpace) :: Log.calls (p.run (s.dropWhile isSpace)).log := by
  rw [log_run_trimmed, log_run_traced]
  simp [Log.calls, Event.call?]

/-! ### Nothing to trim -/

/-- Where the parser deals with the spaces by itself there is nothing to trim. -/
theorem SkipsSpaces.trimmed_eq (hp : SkipsSpaces p) (hp' : LeavesNoSpace p) : trimmed p = p := by
  apply ext
  intro s
  rw [run_trimmed, hp]
  cases ho : p.parse s with
  | success a =>
    rw [Run.andThen_of_success ho, Text.dropWhile_of_stops (hp' s a ho), Run.after_of]
    exact Run.ext rfl ho.symm
  | failure e =>
    rw [Run.andThen_of_failure ho]
    exact Run.ext rfl ho.symm

theorem trimmed_trimmed (p : Parser α) : trimmed (trimmed p) = trimmed p :=
  (skipsSpaces_trimmed p).trimmed_eq (leavesNoSpace_trimmed p)

/-! ### Tokens and expressions -/

theorem skipsSpaces_number : SkipsSpaces number := (skipsSpaces_trimmed numeral).bind ofNumeral

theorem leavesNoSpace_number : LeavesNoSpace number := by
  refine (leavesNoSpace_trimmed numeral).bind fun w t b hb => ?_
  exact (parse_ofNumeral_eq_success.mp hb).2

theorem skipsSpaces_binaryOperator : SkipsSpaces binaryOperator := skipsSpaces_trimmed _

theorem skipsSpaces_operate : SkipsSpaces operate := by
  rw [operate, bind_def]
  exact (skipsSpaces_number.lift3 _ _ _).bind _

theorem evaluate_blank_append (k : Nat) (s : Text) : evaluate (blank k ++ s) = evaluate s := by
  have hparse : operate.parse (blank k ++ s) = operate.parse s := by
    rw [parse, skipsSpaces_operate.run_blank_append, parse]
  unfold evaluate
  rw [hparse]

/-- **Spaces around a parser do not matter.** A text is some number of spaces and, behind them,
a text `t` that does not begin with one. With any number of spaces more in front the run of a
trimmed parser is the same, errors included, and the parser is invoked once, on `t`. A success
leaves no space at the front; and to trim a second time changes nothing. Nor does it change
anything to trim numbers or operators, and spaces in front of them, or of an expression, have
no effect. -/
theorem trimmed_space_insensitive :
    (∀ {α : Type} (p : Parser α) s, ∃ j t, s = blank j ++ t ∧ t.Stops isSpace ∧
      ∀ k, (trimmed p).run (blank k ++ s) = (trimmed p).run s ∧
        ∀ label, Log.calls ((trimmed (traced label p)).run (blank k ++ s)).log =
          (label, t) :: Log.calls (p.run t).log) ∧
    (∀ {α : Type} (p : Parser α) s a,
      (trimmed p).parse s = .success a → a.rest.Stops isSpace) ∧
    (∀ {α : Type} (p : Parser α), trimmed (trimmed p) = trimmed p) ∧
    trimmed number = number ∧ trimmed binaryOperator = binaryOperator ∧
    ∀ k s, number.run (blank k ++ s) = number.run s ∧
      binaryOperator.run (blank k ++ s) = binaryOperator.run s ∧
      operate.run (blank k ++ s) = operate.run s ∧ evaluate (blank k ++ s) = evaluate s := by
  refine ⟨fun p s => ⟨(s.takeWhile isSpace).length, s.dropWhile isSpace, ?_,
      s.stops_dropWhile isSpace, fun k => ⟨(skipsSpaces_trimmed p).run_blank_append k s,
        fun label => ?_⟩⟩,
    leavesNoSpace_trimmed, trimmed_trimmed,
    skipsSpaces_number.trimmed_eq leavesNoSpace_number, trimmed_trimmed _,
    fun k s => ⟨skipsSpaces_number.run_blank_append k s,
      skipsSpaces_binaryOperator.run_blank_append k s,
      skipsSpaces_operate.run_blank_append k s, evaluate_blank_append k s⟩⟩
  · rw [← eq_blank_of_all (s.all_takeWhile isSpace), s.takeWhile_append_dropWhile isSpace]
  · rw [(skipsSpaces_trimmed _).run_blank_append, calls_run_trimmed_traced]

/-- A letter between spaces, with three more in front, which an expression may have as well. -/
theorem letter_between_spaces :
    (trimmed (char 'x')).parse (.ofString "  x  y") = .success ⟨'x', .ofString "y"⟩ ∧
    (Text.ofString "y").Stops isSpace ∧
    (trimmed (char 'x')).run (blank 3 ++ .ofString "  x  y") =
      (trimmed (char 'x')).run (.ofString "  x  y") ∧
    evaluate (blank 3 ++ .ofString "1 ** 2") = evaluate (.ofString "1 ** 2") := by
  obtain ⟨hruns, hrest, -, -, -, hblank⟩ := trimmed_space_insensitive
  have hx : (trimmed (char 'x')).parse (.ofString "  x  y") = .success ⟨'x', .ofString "y"⟩ := by
    decide
  obtain ⟨j, t, -, -, hrun⟩ := hruns (char 'x') (.ofString "  x  y")
  exact ⟨hx, hrest _ _ _ hx, (hrun 3).1, (hblank 3 _).2.2.2⟩

end Arith

end Descent
