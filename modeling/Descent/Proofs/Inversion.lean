import Descent.Parser.Choice

/-!
# How outcomes come about

A composition succeeds exactly when its parts do: `andThen` and what is made with it when
all of them succeed, each on what the one before left, and a choice when one alternative
succeeds and the ones before it mismatch.

It fails with the failure of the first of its parts that fails, word for word; the parts
before it succeeded. What goes on after a mismatch fails with a breach that came before, or
as what comes after does.
-/

namespace Descent

variable {α β γ δ : Type} {e : ParseError}

/-! ### Runs -/

namespace Run

theorem outcome_map_eq_success {f : α → β} {r : Run α} {b : Success β} :
    (r.map f).outcome = .success b ↔ ∃ a, r.outcome = .success a ∧ b = a.map f := by
  rw [outcome_map]
  cases r.outcome with
  | success a => simp [eq_comm]
  | failure e => simp

theorem outcome_andThen_eq_success {r : Run α} {k : Success α → Run β} {b : Success β} :
    (r.andThen k).outcome = .success b ↔
      ∃ a, r.outcome = .success a ∧ (k a).outcome = .success b := by
  unfold andThen
  cases r.outcome with
  | success a => simp
  | failure e => simp

theorem outcome_orElse_eq_success {r : Run α} {k : Unit → Run α} {a : Success α} :
    (r.orElse k).outcome = .success a ↔ r.outcome = .success a ∨
      (∃ m, r.outcome = .failure (.mismatch m)) ∧ (k ()).outcome = .success a := by
  unfold orElse
  rcases h : r.outcome with s | ⟨m | b⟩
  · simp [h]
  · simp
  · simp [h]

theorem outcome_map_eq_failure {f : α → β} {r : Run α} :
    (r.map f).outcome = .failure e ↔ r.outcome = .failure e := by
  rw [outcome_map]
  cases r.outcome with
  | success a => simp
  | failure e => simp

theorem outcome_andThen_eq_failure {r : Run α} {k : Success α → Run β} :
    (r.andThen k).outcome = .failure e ↔
      r.outcome = .failure e ∨ ∃ a, r.outcome = .success a ∧ (k a).outcome = .failure e := by
  cases h : r.outcome with
  | success a => rw [andThen_of_success h]; simp
  | failure e => rw [andThen_of_failure h]; simp

theorem outcome_orElse_eq_failure {r : Run α} {k : Unit → Run α} :
    (r.orElse k).outcome = .failure e ↔ r.outcome = .failure e ∧ e.isRecoverable = false ∨
      (∃ m, r.outcome = .failure (.mismatch m)) ∧ (k ()).outcome = .failure e := by
  unfold orElse
  rcases h : r.outcome with a | ⟨m | b⟩
  · simp [h]
  · cases e <;> simp [ParseError.isRecoverable]
  · cases e <;> simp [h, ParseError.isRecoverable]

end Run

/-! ### Successes of parsers -/

namespace Parser

theorem parse_map (f : α → β) (p : Parser α) (s : Text) :
    (p.map f).parse s = (p.parse s).map f := rfl

theorem parse_map_eq_success {f : α → β} {p : Parser α} {s : Text} {b : Success β} :
    (p.map f).parse s = .success b ↔ ∃ a, p.parse s = .success a ∧ b = a.map f :=
  Run.outcome_map_eq_success

theorem parse_bind_eq_success {p : Parser α} {f : α → Parser β} {s : Text} {b : Success β} :
    (p.bind f).parse s = .success b ↔
      ∃ a, p.parse s = .success a ∧ (f a.value).parse a.rest = .success b :=
  Run.outcome_andThen_eq_success

/-- Two parsers in a row succeed when each does, the second on what the first left. -/
theorem parse_lift2_eq_success {f : α → β → γ} {p : Parser α} {q : Parser β} {s : Text}
    {c : Success γ} :
    (lift2 f p q).parse s = .success c ↔
      ∃ a b, p.parse s = .success a ∧ q.parse a.rest = .success b ∧
        c = ⟨f a.value b.value, b.rest⟩ := by
  rw [parse, run_lift2, Run.outcome_andThen_eq_success]
  constructor
  · intro h
    obtain ⟨a, ha, h⟩ := h
    obtain ⟨b, hb, hc⟩ := Run.outcome_map_eq_success.mp h
    exact ⟨a, b, ha, hb, hc⟩
  · intro h
    obtain ⟨a, b, ha, hb, hc⟩ := h
    exact ⟨a, ha, Run.outcome_map_eq_success.mpr ⟨b, hb, hc⟩⟩

/-- Three parsers in a row succeed when each succeeds on what the one before left. -/
theorem parse_lift3_eq_success {f : α → β → γ → δ} {p : Parser α} {q : Parser β} {r : Parser γ}
    {s : Text} {d : Success δ} :
    (lift3 f p q r).parse s = .success d ↔
      ∃ a b c, p.parse s = .success a ∧ q.parse a.rest = .success b ∧
        r.parse b.rest = .success c ∧ d = ⟨f a.value b.value c.value, c.rest⟩ := by
  rw [parse, run_lift3, Run.outcome_andThen_eq_success]
  constructor
  · intro h
    obtain ⟨a, ha, h⟩ := h
    obtain ⟨b, c, hb, hc, hd⟩ := parse_lift2_eq_success.mp h
    exact ⟨a, b, c, ha, hb, hc, hd⟩
  · intro h
    obtain ⟨a, b, c, ha, hb, hc, hd⟩ := h
    exact ⟨a, ha, parse_lift2_eq_success.mpr ⟨b, c, hb, hc, hd⟩⟩

/-- A choice succeeds with its first alternative, or, where that mismatches, with the
others. -/
theorem parse_anyOf_cons_eq_success {p : Parser α} {ps : List (Parser α)} {s : Text}
    {a : Success α} :
    (anyOf (p :: ps)).parse s = .success a ↔ p.parse s = .success a ∨
      (∃ m, p.parse s = .failure (.mismatch m)) ∧ (anyOf ps).parse s = .success a :=
  Run.outcome_orElse_eq_success

/-! ### Failures of parsers -/

theorem parse_bind_eq_failure {p : Parser α} {f : α → Parser β} {s : Text} :
    (p.bind f).parse s = .failure e ↔ p.parse s = .failure e ∨
      ∃ a, p.parse s = .success a ∧ (f a.value).parse a.rest = .failure e :=
  Run.outcome_andThen_eq_failure

/-- The first of two parsers in a row that fails decides. -/
theorem parse_lift2_eq_failure {f : α → β → γ} {p : Parser α} {q : Parser β} {s : Text} :
    (lift2 f p q).parse s = .failure e ↔ p.parse s = .failure e ∨
      ∃ a, p.parse s = .success a ∧ q.parse a.rest = .failure e := by
  rw [parse, run_lift2, Run.outcome_andThen_eq_failure]
  simp only [Run.outcome_map_eq_failure]
  rfl

theorem parse_lift3_eq_failure {f : α → β → γ → δ} {p : Parser α} {q : Parser β} {r : Parser γ}
    {s : Text} :
    (lift3 f p q r).parse s = .failure e ↔ p.parse s = .failure e ∨
      ∃ a, p.parse s = .success a ∧ (q.parse a.rest = .failure e ∨
        ∃ b, q.parse a.rest = .success b ∧ r.parse b.rest = .failure e) := by
  rw [parse, run_lift3, Run.outcome_andThen_eq_failure]
  exact or_congr_right (exists_congr fun a => and_congr_right fun _ => parse_lift2_eq_failure)

end Parser

end Descent
