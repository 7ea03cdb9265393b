import Descent.Proofs.Expression
import Descent.Proofs.Inversion

/-!
# What is wrong with a text

A text that has no value under `evaluate` has a fault, and the first one it has is what is
reported. `Fault` says what the faults are, in the terms of the text alone: a number that
is missing or does not fit, an operator that is missing, operands without a result, and
text behind the expression. Each of them presupposes that there is none further left, and
asks nothing of what stands further right. The messages are the only failures of
`evaluate` (`evaluate_eq_error_iff_fault`): none is without words, and none is a breach.
-/

namespace Descent

namespace Arith

open Descent.Parser

variable {s r : Text} {v : Int64} {e : ParseError}

/-! ### Numbers -/

/-- `NumberThen s v r`: the text `s` is a numeral of the value `v` with spaces or none
around it, and the text `r`, with which neither the numeral nor the spaces go on. -/
inductive NumberThen : Text → Int64 → Text → Prop where
  /-- The spaces are `a` and `b`. -/
  | intro {a b r : Text} {v : Int64} (m : Numeral) :
      a.All isSpace → b.All isSpace → r.Stops isSpace → (b ++ r).Stops isDigit →
      v.toInt = m.value → NumberThen (a ++ (m.text ++ (b ++ r))) v r

/-- `NumberFault s message`: the text `s` does not begin with a number, and `message` says
why. -/
inductive NumberFault : Text → String → Prop where
  /-- Behind the spaces `a` and the sign `g`, or none, there is no digit. -/
  | noDigit {a t : Text} {g : Sign} :
      a.All isSpace → (g.text ++ t).Stops isSpace → (g = .none → t.Stops isSign) →
      t.Stops isDigit → NumberFault (a ++ (g.text ++ t)) (unsatisfied "expected a digit" t)
  /-- Behind the spaces `a` there is a numeral that does not fit in 64 bits. -/
  | outOfRange {a r : Text} (m : Numeral) :
      a.All isSpace → r.Stops isDigit → ¬ Fits m.value →
      NumberFault (a ++ (m.text ++ r)) s!"integer literal out of range: {m.text}"

/-- A trimmed parser fails as the parser does behind the spaces. -/
theorem parse_trimmed_eq_failure {α : Type} {p : Parser α} :
    (trimmed p).parse s = .failure e ↔ p.parse (s.dropWhile isSpace) = .failure e := by
  rw [parse, run_trimmed, Run.outcome_andThen_eq_failure]
  simp [parse]

theorem parse_numeral_eq_failure :
    numeral.parse s = .failure e ↔
      ∃ (g : Sign) (t : Text), s = g.text ++ t ∧ (g = .none → t.Stops isSign) ∧
        t.Stops isDigit ∧ e = .labelled (unsatisfied "expected a digit" t) := by
  have hfails {g : Sign} {t : Text} (hg : g = .none → t.Stops isSign) (ht : t.Stops isDigit) :
      numeral.parse (g.text ++ t) =
        .failure (.labelled (unsatisfied "expected a digit" t)) := by
    rw [parse, run_numeral g hg, if_pos (Text.takeWhile_eq_empty.mpr ht), run_digit_of_stops ht]
    rfl
  constructor
  · intro h
    obtain ⟨g, t, rfl, hg⟩ := exists_sign s
    by_cases ht : t.Stops isDigit
    · rw [hfails hg ht] at h
      cases h
      exact ⟨g, t, rfl, hg, ht, rfl⟩
    · rw [parse, run_numeral g hg, if_neg (mt Text.takeWhile_eq_empty.mp ht)] at h
      cases h
  · rintro ⟨g, t, rfl, hg, ht, rfl⟩
    exact hfails hg ht

theorem parse_ofNumeral_eq_failure {w : Text} :
    (ofNumeral w).parse s = .failure e ↔
      ¬ Fits (numeralValue w) ∧ e = .labelled s!"integer literal out of range: {w}" := by
  rw [← narrow?_eq_none_iff_not_fits, ofNumeral]
  cases narrow? (numeralValue w) with
  | some v =>
    constructor
    · intro h
      cases h
    · intro h
      cases h.1
  | none =>
    constructor
    · intro h
      cases h
      exact ⟨rfl, rfl⟩
    · intro h
      rw [h.2]
      rfl

theorem parse_number_eq_success_iff :
    number.parse s = .success ⟨v, r⟩ ↔ NumberThen s v r := by
  rw [parse_number_eq_success]
  constructor
  · rintro ⟨a, m, b, ha, hb, hr, hd, hv, rfl⟩
    exact .intro m ha hb hr hd hv
  · rintro ⟨m, ha, hb, hr, hd, hv⟩
    exact ⟨_, m, _, ha, hb, hr, hd, hv, rfl⟩

theorem NumberFault.parse_number {message : String} (h : NumberFault s message) :
    number.parse s = .failure (.labelled message) := by
  rw [number, bind_def, parse_bind_eq_failure]
  cases h with
  | @noDigit a t g ha hspace hg ht =>
    left
    rw [parse_trimmed_eq_failure, Text.dropWhile_append_of_stops ha hspace]
    exact parse_numeral_eq_failure.mpr ⟨g, t, rfl, hg, ht, rfl⟩
  | @outOfRange a r m ha hr hnot =>
    right
    -- the spaces behind the numeral are taken with it
    have hr' : (r.takeWhile isSpace ++ r.dropWhile isSpace).Stops isDigit := by
      rwa [r.takeWhile_append_dropWhile isSpace]
    have hnumeral : (trimmed numeral).parse (a ++ (m.text ++ r)) =
        .success ⟨m.text, r.dropWhile isSpace⟩ := by
      refine parse_trimmed_numeral_eq_success.mpr ⟨a, m, r.takeWhile isSpace, ha,
        r.all_takeWhile isSpace, r.stops_dropWhile isSpace, hr', rfl, ?_⟩
      rw [r.takeWhile_append_dropWhile isSpace]
    rw [← m.numeralValue_text] at hnot
    exact ⟨_, hnumeral, parse_ofNumeral_eq_failure.mpr ⟨hnot, rfl⟩⟩

theorem exists_numberFault (h : number.parse s = .failure e) :
    ∃ message, e = .labelled message ∧ NumberFault s message := by
  rw [number, bind_def, parse_bind_eq_failure] at h
  cases h with
  | inl h =>
    rw [parse_trimmed_eq_failure, parse_numeral_eq_failure] at h
    obtain ⟨g, t, hs, hg, ht, he⟩ := h
    have hspace : (g.text ++ t).Stops isSpace := hs ▸ s.stops_dropWhile isSpace
    refine ⟨_, he, ?_⟩
    rw [← s.takeWhile_append_dropWhile isSpace, hs]
    exact .noDigit (s.all_takeWhile isSpace) hspace hg ht
  | inr h =>
    obtain ⟨⟨w, r⟩, hw, h⟩ := h
    obtain ⟨a, m, b, ha, -, -, hd, rfl, rfl⟩ := parse_trimmed_numeral_eq_success.mp hw
    obtain ⟨hnot, he⟩ := parse_ofNumeral_eq_failure.mp h
    rw [m.numeralValue_text] at hnot
    exact ⟨_, he, .outOfRange m ha hd hnot⟩

theorem parse_number_eq_failure :
    number.parse s = .failure e ↔ ∃ message, e = .labelled message ∧ NumberFault s message := by
  constructor
  · exact exists_numberFault
  · intro h
    obtain ⟨message, rfl, h⟩ := h
    exact h.parse_number

/-! ### Operators -/

/-- `OperatorThen s op r`: the text `s` is the token of `op` with spaces or none around it,
and the text `r`, with which neither the token nor the spaces go on. -/
inductive OperatorThen : Text → Operator → Text → Prop where
  /-- The spaces are `a` and `b`. -/
  | intro {a b r : Text} (op : Operator) :
      a.All isSpace → b.All isSpace → r.Stops isSpace → op.Ends (b ++ r) →
      OperatorThen (a ++ (op.token ++ (b ++ r))) op r

theorem parse_binaryOperator_eq_success_iff {op : Operator} :
    binaryOperator.parse s = .success ⟨op, r⟩ ↔ OperatorThen s op r := by
  rw [parse_binaryOperator_eq_success]
  constructor
  · rintro ⟨a, b, ha, hb, hr, hends, rfl⟩
    exact .intro op ha hb hr hends
  · rintro ⟨op, ha, hb, hr, hends⟩
    exact ⟨_, _, ha, hb, hr, hends, rfl⟩

/-- No operator is found where no token stands behind the spaces. -/
theorem parse_binaryOperator_eq_failure :
    binaryOperator.parse s = .failure e ↔
      (∀ (op : Operator) (t : Text), s.dropWhile isSpace ≠ op.token ++ t) ∧ e = .noneMatched := by
  rw [binaryOperator, parse_trimmed_eq_failure, operatorToken_eq, parse_anyOf_keyword_eq_failure]
  simp only [Operator.mem_all, true_imp_iff, Text.not_isPrefix]

/-! ### Expressions -/

/-- `Fault s message`: the text `s` has no value, and `message` says what is wrong with it
first. -/
inductive Fault : Text → String → Prop where
  /-- The left operand is no number. -/
  | left {s : Text} {message : String} : NumberFault s message → Fault s message
  /-- Behind the left operand there is no token of an operator. -/
  | operator {s s₁ : Text} {l : Int64} :
      NumberThen s l s₁ → (∀ (op : Operator) (t : Text), s₁ ≠ op.token ++ t) →
      Fault s "none matched"
  /-- The right operand is no number. -/
  | right {s s₁ s₂ : Text} {l : Int64} {op : Operator} {message : String} :
      NumberThen s l s₁ → OperatorThen s₁ op s₂ → NumberFault s₂ message → Fault s message
  /-- The operator has no result on the operands. -/
  | arithmetic {s s₁ s₂ s₃ : Text} {l r : Int64} {op : Operator} {error : ArithmeticError} :
      NumberThen s l s₁ → OperatorThen s₁ op s₂ → NumberThen s₂ r s₃ →
      op.apply l r = .error error → Fault s error.describe
  /-- Text follows the expression. -/
  | trailing {s s₁ s₂ s₃ : Text} {l r v : Int64} {op : Operator} :
      NumberThen s l s₁ → OperatorThen s₁ op s₂ → NumberThen s₂ r s₃ → op.apply l r = .ok v →
      s₃ ≠ ∅ → Fault s s!"unexpected trailing input: '{s₃}'"

theorem NumberThen.stops (h : NumberThen s v r) : r.Stops isSpace := by
  obtain ⟨m, -, -, hr, -, -⟩ := h
  exact hr

theorem parse_applied_eq_failure {l r : Int64} {op : Operator} :
    (applied l op r).parse s = .failure e ↔
      ∃ error, op.apply l r = .error error ∧ e = .labelled error.describe := by
  rw [applied]
  cases op.apply l r with
  | ok value =>
    constructor
    · rintro ⟨⟩
    · rintro ⟨_, ⟨⟩, -⟩
  | error error =>
    constructor
    · rintro ⟨⟩
      exact ⟨error, rfl, rfl⟩
    · rintro ⟨_, ⟨⟩, rfl⟩
      rfl

/-- `operate` fails as the first of its tokens that does, or as its operator. -/
theorem parse_operate_eq_failure :
    operate.parse s = .failure e ↔ number.parse s = .failure e ∨
      ∃ l s₁, number.parse s = .success ⟨l, s₁⟩ ∧ (binaryOperator.parse s₁ = .failure e ∨
        ∃ op s₂, binaryOperator.parse s₁ = .success ⟨op, s₂⟩ ∧ (number.parse s₂ = .failure e ∨
          ∃ r s₃ error, number.parse s₂ = .success ⟨r, s₃⟩ ∧ op.apply l r = .error error ∧
            e = .labelled error.describe)) := by
  rw [operate, bind_def, parse_bind_eq_failure, parse_lift3_eq_failure]
  constructor
  · rintro ((h | ⟨⟨l, s₁⟩, hl, h | ⟨⟨op, s₂⟩, hop, h⟩⟩) | ⟨a, ha, h⟩)
    · exact Or.inl h
    · exact Or.inr ⟨l, s₁, hl, Or.inl h⟩
    · exact Or.inr ⟨l, s₁, hl, Or.inr ⟨op, s₂, hop, Or.inl h⟩⟩
    · obtain ⟨⟨l, s₁⟩, ⟨op, s₂⟩, ⟨r, s₃⟩, hl, hop, hr, rfl⟩ := parse_lift3_eq_success.mp ha
      obtain ⟨error, happly, rfl⟩ := parse_applied_eq_failure.mp h
      exact Or.inr ⟨l, s₁, hl, Or.inr ⟨op, s₂, hop, Or.inr ⟨r, s₃, error, hr, happly, rfl⟩⟩⟩
  · rintro (h | ⟨l, s₁, hl, h | ⟨op, s₂, hop, h | ⟨r, s₃, error, hr, happly, rfl⟩⟩⟩)
    · exact Or.inl (Or.inl h)
    · exact Or.inl (Or.inr ⟨_, hl, Or.inl h⟩)
    · exact Or.inl (Or.inr ⟨_, hl, Or.inr ⟨_, hop, h⟩⟩)
    · exact Or.inr ⟨⟨(l, op, r), s₃⟩, parse_lift3_eq_success.mpr ⟨_, _, _, hl, hop, hr, rfl⟩,
        parse_applied_eq_failure.mpr ⟨error, happly, rfl⟩⟩

theorem evaluate_eq_error :
    evaluate s = .error e ↔ operate.parse s = .failure e ∨
      ∃ v r, operate.parse s = .success ⟨v, r⟩ ∧ r ≠ ∅ ∧
        e = .labelled s!"unexpected trailing input: '{r}'" := by
  unfold evaluate
  rcases operate.parse s with ⟨v, r⟩ | e'
  · dsimp only
    split
    · next hempty =>
      constructor
      · rintro ⟨⟩
      · rintro (⟨⟨⟩⟩ | ⟨_, _, ⟨⟩, hne, -⟩)
        exact absurd (Text.isEmpty_iff.mp hempty) hne
    · next hne =>
      constructor
      · rintro ⟨⟩
        exact Or.inr ⟨v, r, rfl, mt Text.isEmpty_iff.mpr hne, rfl⟩
      · rintro (⟨⟨⟩⟩ | ⟨_, _, ⟨⟩, -, rfl⟩)
        rfl
  · constructor
    · rintro ⟨⟩
      exact Or.inl rfl
    · rintro (⟨⟨⟩⟩ | ⟨_, _, ⟨⟩, -⟩)
      rfl

theorem evaluate_eq_error_of_fault {message : String} (h : Fault s message) :
    evaluate s = .error (.labelled message) := by
  rw [evaluate_eq_error, parse_operate_eq_failure]
  simp only [parse_operate_eq_success, parse_number_eq_success_iff, parse_number_eq_failure,
    parse_binaryOperator_eq_success_iff, parse_binaryOperator_eq_failure]
  cases h with
  | left h => exact Or.inl (Or.inl ⟨_, rfl, h⟩)
  | operator hl hnone =>
    rw [← Text.dropWhile_of_stops hl.stops] at hnone
    exact Or.inl (Or.inr ⟨_, _, hl, Or.inl ⟨hnone, rfl⟩⟩)
  | right hl hop h => exact Or.inl (Or.inr ⟨_, _, hl, Or.inr ⟨_, _, hop, Or.inl ⟨_, rfl, h⟩⟩⟩)
  | arithmetic hl hop hr happly =>
    exact Or.inl (Or.inr ⟨_, _, hl, Or.inr ⟨_, _, hop, Or.inr ⟨_, _, _, hr, happly, rfl⟩⟩⟩)
  | trailing hl hop hr happly hne =>
    exact Or.inr ⟨_, _, ⟨_, _, _, _, _, hl, hop, hr, happly⟩, hne, rfl⟩

theorem exists_fault (h : evaluate s = .error e) :
    ∃ message, e = .labelled message ∧ Fault s message := by
  rw [evaluate_eq_error, parse_operate_eq_failure] at h
  simp only [parse_operate_eq_success, parse_number_eq_success_iff, parse_number_eq_failure,
    parse_binaryOperator_eq_success_iff, parse_binaryOperator_eq_failure] at h
  rcases h with (⟨message, rfl, h⟩ | ⟨l, s₁, hl, ⟨hnone, rfl⟩ | ⟨op, s₂, hop, h⟩⟩) |
    ⟨v, s₃, ⟨l, op, r, s₁, s₂, hl, hop, hr, happly⟩, hne, rfl⟩
  · exact ⟨message, rfl, .left h⟩
  · rw [Text.dropWhile_of_stops hl.stops] at hnone
    exact ⟨_, rfl, .operator hl hnone⟩
  · rcases h with ⟨message, rfl, h⟩ | ⟨r, s₃, error, hr, happly, rfl⟩
    · exact ⟨message, rfl, .right hl hop h⟩
    · exact ⟨_, rfl, .arithmetic hl hop hr happly⟩
  · exact ⟨_, rfl, .trailing hl hop hr happly hne⟩

/-- **The first fault is what is reported.** The failures of `evaluate` are mismatches
with a message, and the message says what is wrong with the text first: the left numeral
has no digit, or does not fit in 64 bits; no operator stands behind it; the right numeral
has no digit, or does not fit; the operator has no result; the expression is not the end. -/
theorem evaluate_eq_error_iff_fault (s : Text) :
    (∀ e, evaluate s = .error e ↔ ∃ message, e = .labelled message ∧ Fault s message) ∧
    ∀ message message', Fault s message → Fault s message' → message = message' := by
  refine ⟨fun e => ⟨exists_fault, ?_⟩, fun message message' h h' => ?_⟩
  · rintro ⟨message, rfl, h⟩
    exact evaluate_eq_error_of_fault h
  · have heq := (evaluate_eq_error_of_fault h).symm.trans (evaluate_eq_error_of_fault h')
    simpa using heq

end Arith

end Descent
