import Descent.Parser.Sequence
import Descent.Proofs.Keyword
import Descent.Proofs.Scan

/-!
# Literal texts, spelled out

A literal text is its characters in a row: where the text begins with it, each character is
found, and otherwise the first character that differs, or is missing, is a mismatch
(`run_sequence_char_append`, `mismatches_sequence_char`). In the same way a literal text may be
cut into two, one behind the other.

It is compared character by character. To compare the bytes of the two encodings is the same,
since UTF-8 is such that no character is the beginning of another one
(`Text.isPrefix_iff_bytes`).
-/

namespace Descent

namespace Text

variable {s w : Text}

/-! ### Bytes -/

/-- The UTF-8 encoding of the text. -/
def bytes (s : Text) : ByteArray := s.toString.toByteArray

theorem bytes_eq_utf8Encode (s : Text) : s.bytes = s.chars.utf8Encode := String.toByteArray_ofList

theorem bytes_append (s t : Text) : (s ++ t).bytes = s.bytes ++ t.bytes := by
  simp only [bytes_eq_utf8Encode, chars_append, List.utf8Encode_append]

/-- A text that begins with the bytes of another one begins with its characters. -/
theorem isPrefix_iff_bytes : w.IsPrefix s ↔ ∃ b, s.bytes = w.bytes ++ b := by
  constructor
  · intro h
    obtain ⟨t, rfl⟩ := h
    exact ⟨t.bytes, bytes_append w t⟩
  · intro h
    obtain ⟨b, hb⟩ := h
    rw [bytes_eq_utf8Encode, bytes_eq_utf8Encode] at hb
    exact isPrefix_iff_chars.mpr (List.isPrefix_of_utf8Encode_append_eq_utf8Encode b hb.symm)

theorem bytes_inj : s.bytes = w.bytes ↔ s = w := by
  constructor
  · intro h
    have hstring : s.toString = w.toString := String.toByteArray_inj.mp h
    rw [← ofString_toString s, hstring, ofString_toString]
  · intro h
    rw [h]

end Text

namespace Parser

variable {α β γ : Type} {v w s : Text}

/-- Two parsers in a row mismatch when the first does, or the second on what it left. -/
theorem mismatches_lift2 {f : α → β → γ} {p : Parser α} {q : Parser β} :
    (lift2 f p q).Mismatches s ↔
      p.Mismatches s ∨ ∃ a, p.parse s = .success a ∧ q.Mismatches a.rest := by
  simp only [Mismatches, parse_lift2_eq_failure, exists_or, ← exists_and_left]
  exact or_congr_right exists_comm

/-! ### Characters in a row -/

theorem run_sequence_char_append (w s : Text) :
    (sequence (w.chars.map char)).run (w ++ s) = .of (.success ⟨w.chars, s⟩) := by
  induction w with
  | empty => rw [Text.empty_append]; rfl
  | cons c w ih =>
    rw [Text.chars_cons, List.map_cons, sequence_cons, run_lift2, Text.cons_append, run_char_cons,
      Run.success_andThen, ih]
    rfl

theorem mismatches_sequence_char (h : ¬ w.IsPrefix s) :
    (sequence (w.chars.map char)).Mismatches s := by
  induction w generalizing s with
  | empty => exact absurd ⟨s, (Text.empty_append s).symm⟩ h
  | cons c w ih =>
    rw [Text.chars_cons, List.map_cons, sequence_cons, mismatches_lift2]
    by_cases hstop : s.Stops (· == c)
    · exact Or.inl (parse_char_of_stops hstop)
    · cases s with
      | empty => exact absurd Text.stops_empty hstop
      | cons d s =>
        have hdc : d = c := by simpa [Text.stops_cons] using hstop
        have hfirst : (char c).parse (.cons d s) = .success ⟨c, s⟩ := by
          rw [hdc, parse, run_char_cons, Run.outcome_of]
        refine Or.inr ⟨_, hfirst, ih fun hw => h ?_⟩
        obtain ⟨t, rfl⟩ := hw
        exact ⟨t, by rw [hdc, Text.cons_append]⟩

/-! ### Two parts -/

theorem run_lift2_literal_append (w v s : Text) :
    (lift2 (· ++ ·) (literal w) (literal v)).run (w ++ v ++ s) =
      .of (.success ⟨w ++ v, s⟩) := by
  rw [run_lift2, Text.append_assoc, run_literal_append, Run.success_andThen, run_literal_append]
  rfl

theorem mismatches_lift2_literal (h : ¬ (w ++ v).IsPrefix s) :
    (lift2 (· ++ ·) (literal w) (literal v)).Mismatches s := by
  rw [mismatches_lift2, mismatches_literal]
  by_cases hw : w.IsPrefix s
  · obtain ⟨t, rfl⟩ := hw
    refine Or.inr ⟨⟨w, t⟩, parse_literal_eq_success.mpr ⟨rfl, rfl⟩, ?_⟩
    refine mismatches_literal.mpr fun hv => h ?_
    obtain ⟨u, rfl⟩ := hv
    exact ⟨u, (Text.append_assoc w v u).symm⟩
  · exact Or.inl hw

/-- **A literal text is its characters in a row.** A text that begins with `w` has the same
characters and the same rest for both; on any other text both mismatch. And it is two literal
texts in a row, wherever it is cut into two.

It makes no difference that bytes are compared: the rest is `r` exactly if the bytes of the
text are those of `w` and behind them those of `r`, and there is a mismatch exactly if the
bytes of the text do not begin with those of `w`. -/
theorem literal_spelled_out :
    (∀ w s : Text,
      (∃ r, s = w ++ r ∧ (literal w).parse s = .success ⟨w, r⟩ ∧
        (sequence (w.chars.map char)).parse s = .success ⟨w.chars, r⟩) ∨
      ¬ w.IsPrefix s ∧ (literal w).Mismatches s ∧ (sequence (w.chars.map char)).Mismatches s) ∧
    (∀ w v s : Text,
      (∃ r, s = w ++ v ++ r ∧ (literal (w ++ v)).parse s = .success ⟨w ++ v, r⟩ ∧
        (lift2 (· ++ ·) (literal w) (literal v)).parse s = .success ⟨w ++ v, r⟩) ∨
      ¬ (w ++ v).IsPrefix s ∧ (literal (w ++ v)).Mismatches s ∧
        (lift2 (· ++ ·) (literal w) (literal v)).Mismatches s) ∧
    ∀ w s : Text,
      (∀ r, (literal w).parse s = .success ⟨w, r⟩ ↔ s.bytes = w.bytes ++ r.bytes) ∧
      ((literal w).Mismatches s ↔ ∀ b, s.bytes ≠ w.bytes ++ b) := by
  refine ⟨fun w s => ?_, fun w v s => ?_, fun w s => ⟨fun r => ?_, ?_⟩⟩
  · by_cases h : w.IsPrefix s
    · obtain ⟨r, rfl⟩ := h
      refine Or.inl ⟨r, rfl, parse_literal_eq_success.mpr ⟨rfl, rfl⟩, ?_⟩
      rw [parse, run_sequence_char_append, Run.outcome_of]
    · exact Or.inr ⟨h, mismatches_literal.mpr h, mismatches_sequence_char h⟩
  · by_cases h : (w ++ v).IsPrefix s
    · obtain ⟨r, rfl⟩ := h
      refine Or.inl ⟨r, rfl, parse_literal_eq_success.mpr ⟨rfl, rfl⟩, ?_⟩
      rw [parse, run_lift2_literal_append, Run.outcome_of]
    · exact Or.inr ⟨h, mismatches_literal.mpr h, mismatches_lift2_literal h⟩
  · rw [parse_literal_eq_success, and_iff_right rfl, ← Text.bytes_append, Text.bytes_inj]
  · rw [mismatches_literal, Text.isPrefix_iff_bytes, not_exists]

/-- Characters of three bytes each: the text begins with the bytes of the two of the word. -/
example : (Text.ofString "世界").IsPrefix (.ofString "世界!") ∧
    (sequence ((Text.ofString "世界").chars.map char)).parse (.ofString "世界!") =
      .success ⟨['世', '界'], .ofString "!"⟩ := by decide

end Parser

end Descent
