import Descent.Proofs.Keyword
import Descent.Proofs.Scan

/-!
# Operator tokens

Operators are keywords, with their tokens for words. The token `**` is tried in front of
`*`, which begins it, and no other token begins another one. So an operator is found exactly
where its token stands, a product only where the token is not the first half of a power
(`parse_binaryOperator_eq_success`).
-/

namespace Descent

namespace Arith

open Descent.Parser

/-- The token of an operator as a text. -/
def Operator.token (op : Operator) : Text := .ofString op.symbol

theorem operatorToken_eq : operatorToken = keyword Operator.token := rfl

/-! ### The six tokens -/

/-- The text does not go on as a longer token would: behind `*` there is no `*`. -/
def Operator.Ends (op : Operator) (s : Text) : Prop := op = .mul → s.Stops (· == '*')

/-- The first character of a token. -/
theorem Operator.token_append (op : Operator) (s : Text) :
    op.token ++ s = match op with
      | .pow => .cons '*' (.cons '*' s)
      | .add => .cons '+' s
      | .sub => .cons '-' s
      | .mul => .cons '*' s
      | .div => .cons '/' s
      | .xor => .cons '^' s := by
  cases op <;> exact Text.ext rfl

/-- A token stops every test that the characters of tokens do not pass. -/
theorem Operator.stops_token {q : Char → Bool} (hq : ['*', '+', '-', '/', '^'].any q = false)
    (op : Operator) (s : Text) : (op.token ++ s).Stops q := by
  have hchar {c : Char} (hc : c ∈ ['*', '+', '-', '/', '^']) : q c = false :=
    Bool.eq_false_iff.mpr (List.any_eq_false.mp hq c hc)
  rw [op.token_append]
  cases op <;> exact Text.stops_cons.mpr (hchar (by decide))

/-- The operators tried in front of one, and the ones behind it. -/
theorem Operator.exists_all_eq (op : Operator) :
    ∃ before behind, all = before ++ op :: behind ∧ op ∉ before := by
  cases op with
  | pow => exact ⟨[], _, rfl, by decide⟩
  | add => exact ⟨[pow], _, rfl, by decide⟩
  | sub => exact ⟨[pow, add], _, rfl, by decide⟩
  | mul => exact ⟨[pow, add, sub], _, rfl, by decide⟩
  | div => exact ⟨[pow, add, sub, mul], _, rfl, by decide⟩
  | xor => exact ⟨[pow, add, sub, mul, div], _, rfl, by decide⟩

theorem Operator.mem_all (op : Operator) : op ∈ all := by
  obtain ⟨before, behind, h, -⟩ := op.exists_all_eq
  rw [h]
  exact List.mem_append_right _ (List.mem_cons_self ..)

/-- Of two tokens that begin one text the longer is `**` and the shorter `*`. -/
theorem Operator.eq_of_token_append_eq {op o : Operator} {s t : Text} (hne : op ≠ o)
    (h : op.token ++ s = o.token ++ t) :
    (op = .mul ∧ o = .pow ∧ s = .cons '*' t) ∨ (op = .pow ∧ o = .mul ∧ t = .cons '*' s) := by
  rw [op.token_append, o.token_append, ← Text.chars_inj] at h
  cases op <;> cases o <;> first
    | exact absurd rfl hne
    | exact absurd (List.cons.inj h).1 (by decide)
    | exact Or.inl ⟨rfl, rfl, Text.ext (List.cons.inj h).2⟩
    | exact Or.inr ⟨rfl, rfl, Text.ext (List.cons.inj h).2.symm⟩

/-- The choice of all six tokens takes the longest one. -/
theorem parse_anyOf_all_eq_success {op : Operator} {s r : Text} :
    (anyOf (Operator.all.map operatorToken)).parse s = .success ⟨op, r⟩ ↔
      s = op.token ++ r ∧ op.Ends r := by
  rw [operatorToken_eq, parse_anyOf_keyword_eq_success]
  constructor
  · rintro ⟨before, behind, hall, rfl, hbefore⟩
    refine ⟨rfl, ?_⟩
    rintro rfl
    -- the power is tried first, and did not match
    have hpow : Operator.pow ∈ before := by
      cases before with
      | nil => exact absurd (List.cons.inj hall).1 (by decide)
      | cons o before => exact (List.cons.inj hall).1 ▸ List.mem_cons_self ..
    cases r with
    | empty => exact Text.stops_empty
    | cons c r =>
      rw [Text.stops_cons, beq_eq_false_iff_ne]
      rintro rfl
      exact hbefore .pow hpow ⟨r, by rw [Operator.token_append, Operator.token_append]⟩
  · rintro ⟨rfl, hends⟩
    obtain ⟨before, behind, hall, hnot⟩ := op.exists_all_eq
    refine ⟨before, behind, hall, rfl, fun o ho hprefix => ?_⟩
    obtain ⟨t, h⟩ := hprefix
    have hne : op ≠ o := by rintro rfl; exact hnot ho
    rcases Operator.eq_of_token_append_eq hne h with ⟨rfl, rfl, rfl⟩ | ⟨rfl, rfl, -⟩
    · exact absurd (Text.stops_cons.mp (hends rfl)) (by decide)
    · cases before with
      | nil => exact absurd ho List.not_mem_nil
      | cons o before =>
        rw [← (List.cons.inj hall).1] at hnot
        exact hnot (List.mem_cons_self ..)

/-- An operator is parsed off a text that begins with its token between spaces, unless
the token goes on. -/
theorem parse_binaryOperator_eq_success {op : Operator} {s r : Text} :
    binaryOperator.parse s = .success ⟨op, r⟩ ↔
      ∃ a b : Text, a.All isSpace ∧ b.All isSpace ∧ r.Stops isSpace ∧ op.Ends (b ++ r) ∧
        s = a ++ (op.token ++ (b ++ r)) := by
  rw [binaryOperator, parse_trimmed_eq_success]
  constructor
  · rintro ⟨a, t, b, ha, -, hb, hr, rfl, h⟩
    obtain ⟨rfl, hends⟩ := parse_anyOf_all_eq_success.mp h
    exact ⟨a, b, ha, hb, hr, hends, rfl⟩
  · rintro ⟨a, b, ha, hb, hr, hends, rfl⟩
    exact ⟨a, _, b, ha, op.stops_token rfl _, hb, hr, rfl,
      parse_anyOf_all_eq_success.mpr ⟨rfl, hends⟩⟩

end Arith

end Descent
