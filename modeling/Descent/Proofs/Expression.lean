import Descent.Arith.Expression
import Descent.Proofs.Numeral
import Descent.Proofs.OperatorToken

/-!
# Which texts are expressions

The grammar of expressions is a numeral, an operator token and a numeral, with spaces
around each (`Reads`). The parser is greedy and never goes back, and still it loses no
text of the grammar: no numeral, token or run of spaces could have taken a character of
what follows it (`Reads.parse`). So a text has the value of its reading, or none, and all
its readings agree (`Reads.unique`).
-/

namespace Descent

namespace Arith

open Descent.Parser

/-- `Reads s l op r`: the text `s` is the numeral `l`, the token of `op` and the numeral
`r`, with spaces or none around each of them. -/
inductive Reads : Text → Numeral → Operator → Numeral → Prop where
  /-- The spaces are `a`, `b`, `c` and `d`. -/
  | intro {a b c d : Text} (l : Numeral) (op : Operator) (r : Numeral) :
      a.All isSpace → b.All isSpace → c.All isSpace → d.All isSpace →
      Reads (a ++ (l.text ++ (b ++ (op.token ++ (c ++ (r.text ++ d)))))) l op r

/-- The integer fits in 64 bits: it lies between `-2⁶³` and `2⁶³ – 1`. -/
def Fits (n : Int) : Prop := -9223372036854775808 ≤ n ∧ n ≤ 9223372036854775807

instance (n : Int) : Decidable (Fits n) := inferInstanceAs (Decidable (_ ∧ _))

theorem fits_toInt (v : Int64) : Fits v.toInt := ⟨Int64.minValue_le_toInt v, Int64.toInt_le v⟩

theorem toInt_ofInt_of_fits {n : Int} (h : Fits n) : (Int64.ofInt n).toInt = n :=
  Int64.toInt_ofInt_of_le h.1 (Int.lt_add_one_of_le h.2)

theorem narrow?_eq_none_iff_not_fits {n : Int} : narrow? n = none ↔ ¬ Fits n := by
  rw [narrow?_eq_none, Fits, Int64.toInt_minValue, Int64.toInt_maxValue]
  omega

/-! ### Nothing of the grammar is lost -/

/-- Spaces stop a test that a space does not pass, or leave it to what follows them. -/
theorem stops_spaces_append {q : Char → Bool} {b s : Text} (hb : b.All isSpace)
    (hq : q ' ' = false) (hs : s.Stops q) : (b ++ s).Stops q := by
  cases b with
  | empty => rwa [Text.empty_append]
  | cons x b =>
    have hx : x = ' ' := beq_iff_eq.mp (hb x (List.mem_cons_self ..))
    rw [Text.cons_append, Text.stops_cons, hx]
    exact hq

/-- Behind its token and spaces a numeral does not make the token a longer one. -/
theorem Operator.ends_spaces_numeral (op : Operator) {c : Text} (hc : c.All isSpace) (r : Numeral)
    (d : Text) : op.Ends (c ++ (r.text ++ d)) := by
  intro _
  refine stops_spaces_append hc rfl (r.stops_text rfl rfl (fun x hx => ?_) d)
  exact beq_eq_false_of_test hx rfl

/-- On a text that reads as an expression the tokens are parsed as they are read. -/
theorem Reads.parse {s : Text} {l : Numeral} {op : Operator} {r : Numeral} (h : Reads s l op r) :
    ∃ s₁ s₂, (trimmed numeral).parse s = .success ⟨l.text, s₁⟩ ∧
      binaryOperator.parse s₁ = .success ⟨op, s₂⟩ ∧
      (trimmed numeral).parse s₂ = .success ⟨r.text, ∅⟩ := by
  obtain ⟨l, op, r, ha, hb, hc, hd⟩ := h
  rename_i a b c d
  refine ⟨op.token ++ (c ++ (r.text ++ d)), r.text ++ d, ?_, ?_, ?_⟩
  · have hdigit : (op.token ++ (c ++ (r.text ++ d))).Stops isDigit := op.stops_token rfl _
    exact parse_trimmed_numeral_eq_success.mpr ⟨a, l, b, ha, hb, op.stops_token rfl _,
      stops_spaces_append hb rfl hdigit, rfl, rfl⟩
  · exact parse_binaryOperator_eq_success.mpr ⟨∅, c, Text.all_empty, hc, r.stops_isSpace d,
      op.ends_spaces_numeral hc r d, (Text.empty_append _).symm⟩
  · exact parse_trimmed_numeral_eq_success.mpr ⟨∅, r, d, Text.all_empty, hd, Text.stops_empty,
      stops_spaces_append hd rfl Text.stops_empty, rfl,
      by rw [Text.empty_append, Text.append_empty]⟩

/-- All readings of a text agree. -/
theorem Reads.unique {s : Text} {l l' : Numeral} {op op' : Operator} {r r' : Numeral}
    (h : Reads s l op r) (h' : Reads s l' op' r') :
    l.value = l'.value ∧ op = op' ∧ r.value = r'.value := by
  obtain ⟨s₁, s₂, hl, hop, hr⟩ := h.parse
  obtain ⟨s₁', s₂', hl', hop', hr'⟩ := h'.parse
  obtain ⟨hl, rfl⟩ : l.text = l'.text ∧ s₁ = s₁' := by simpa using hl.symm.trans hl'
  obtain ⟨hop, rfl⟩ : op = op' ∧ s₂ = s₂' := by simpa using hop.symm.trans hop'
  have hr : r.text = r'.text := by simpa using hr.symm.trans hr'
  exact ⟨by rw [← l.numeralValue_text, hl, l'.numeralValue_text], hop,
    by rw [← r.numeralValue_text, hr, r'.numeralValue_text]⟩

/-! ### Evaluation -/

theorem parse_applied_eq_success {l r v : Int64} {op : Operator} {s t : Text} :
    (applied l op r).parse s = .success ⟨v, t⟩ ↔ op.apply l r = .ok v ∧ t = s := by
  rw [applied]
  cases op.apply l r with
  | ok value =>
    constructor
    · rintro ⟨⟩
      exact ⟨rfl, rfl⟩
    · rintro ⟨⟨⟩, rfl⟩
      rfl
  | error e =>
    constructor
    · rintro ⟨⟩
    · rintro ⟨⟨⟩, -⟩

/-- `operate` succeeds when its three tokens do and the operator has a result. -/
theorem parse_operate_eq_success {s t : Text} {v : Int64} :
    operate.parse s = .success ⟨v, t⟩ ↔
      ∃ l op r s₁ s₂, number.parse s = .success ⟨l, s₁⟩ ∧
        binaryOperator.parse s₁ = .success ⟨op, s₂⟩ ∧ number.parse s₂ = .success ⟨r, t⟩ ∧
        op.apply l r = .ok v := by
  rw [operate, bind_def, parse_bind_eq_success]
  constructor
  · rintro ⟨a, ha, hv⟩
    obtain ⟨⟨l, s₁⟩, ⟨op, s₂⟩, ⟨r, s₃⟩, hl, hop, hr, rfl⟩ := parse_lift3_eq_success.mp ha
    obtain ⟨hv, rfl⟩ := parse_applied_eq_success.mp hv
    exact ⟨l, op, r, s₁, s₂, hl, hop, hr, hv⟩
  · rintro ⟨l, op, r, s₁, s₂, hl, hop, hr, hv⟩
    exact ⟨⟨(l, op, r), t⟩, parse_lift3_eq_success.mpr ⟨_, _, _, hl, hop, hr, rfl⟩,
      parse_applied_eq_success.mpr ⟨hv, rfl⟩⟩

/-- `evaluate` succeeds when `operate` does and leaves nothing. -/
theorem evaluate_eq_ok {s : Text} {v : Int64} :
    evaluate s = .ok v ↔ operate.parse s = .success ⟨v, ∅⟩ := by
  unfold evaluate
  cases operate.parse s with
  | failure e => simp
  | success a =>
    obtain ⟨value, rest⟩ := a
    by_cases h : rest = ∅
    · simp [h]
    · simp [h]

/-- **Evaluation accepts exactly the grammar**: a text has the value `v` when it reads as
an expression whose numerals fit in 64 bits and whose operator has the result `v` on
them; and no text has two readings of different values. -/
theorem evaluate_eq_ok_iff_reads (s : Text) :
    (∀ v, evaluate s = .ok v ↔
      ∃ l op r, Reads s l op r ∧ Fits l.value ∧ Fits r.value ∧
        op.apply (.ofInt l.value) (.ofInt r.value) = .ok v) ∧
    ∀ l op r l' op' r', Reads s l op r → Reads s l' op' r' →
      l.value = l'.value ∧ op = op' ∧ r.value = r'.value := by
  refine ⟨fun v => ?_, fun l op r l' op' r' h h' => h.unique h'⟩
  rw [evaluate_eq_ok, parse_operate_eq_success]
  constructor
  · rintro ⟨x, op, y, s₁, s₂, hx, hop, hy, hv⟩
    obtain ⟨a, l, b, ha, hb, -, -, hl, rfl⟩ := parse_number_eq_success.mp hx
    obtain ⟨a', b', ha', hb', -, -, rfl⟩ := parse_binaryOperator_eq_success.mp hop
    obtain ⟨a'', r, b'', ha'', hb'', -, -, hr, rfl⟩ := parse_number_eq_success.mp hy
    have hreads := Reads.intro l op r ha (Text.all_append.mpr ⟨hb, ha'⟩)
      (Text.all_append.mpr ⟨hb', ha''⟩) hb''
    refine ⟨l, op, r, ?_, hl ▸ fits_toInt x, hr ▸ fits_toInt y, ?_⟩
    · simpa only [Text.append_assoc, Text.append_empty] using hreads
    · rw [← hl, ← hr, Int64.ofInt_toInt, Int64.ofInt_toInt]
      exact hv
  · rintro ⟨l, op, r, hreads, hl, hr, hv⟩
    obtain ⟨s₁, s₂, hpl, hop, hpr⟩ := hreads.parse
    have hnumber {m : Numeral} (hm : Fits m.value) {s t : Text}
        (h : (trimmed numeral).parse s = .success ⟨m.text, t⟩) :
        number.parse s = .success ⟨.ofInt m.value, t⟩ := by
      rw [number, bind_def, parse_bind_eq_success]
      refine ⟨_, h, parse_ofNumeral_eq_success.mpr ⟨?_, rfl⟩⟩
      rw [toInt_ofInt_of_fits hm, m.numeralValue_text]
    exact ⟨_, op, _, s₁, s₂, hnumber hl hpl, hop, hnumber hr hpr, hv⟩

/-- The text ` -2**+3` reads as a power of two signed numerals, and has the value `-8`. -/
theorem evaluate_signed_power : evaluate (.ofString " -2**+3") = .ok (-8) := by
  have hspace : (Text.singleton ' ').All isSpace := Text.all_singleton rfl
  have hreads : Reads (.ofString " -2**+3")
      ⟨.minus, .singleton '2', by decide, Text.all_singleton rfl⟩ .pow
      ⟨.plus, .singleton '3', by decide, Text.all_singleton rfl⟩ := by
    have h := Reads.intro ⟨.minus, .singleton '2', by decide, Text.all_singleton rfl⟩ .pow
      ⟨.plus, .singleton '3', by decide, Text.all_singleton rfl⟩ hspace Text.all_empty
      Text.all_empty Text.all_empty
    rwa [show Text.ofString " -2**+3" = _ from Text.ext rfl]
  exact ((evaluate_eq_ok_iff_reads _).1 (-8)).mpr
    ⟨_, _, _, hreads, by decide, by decide, rfl⟩

end Arith

end Descent
