import Descent.Proofs.Fault

/-!
# What a number is parsed from

Every text can be taken apart as `number` reads it: spaces, a sign or none, digits, spaces
and a rest, each run of characters as long as it can be (`NumberParts`). The parts decide
what `number` does with the text, whatever is in the rest (`parse_number_of_parts`). If
there are no digits it fails where they are missing, behind the sign. Otherwise the sign and
the digits are a numeral, of any length and with any number of zeros in front, and its value
is the result if it fits in 64 bits.
-/

namespace Descent

namespace Arith

open Descent.Parser

variable {s : Text}

/-- A text taken apart for a number. -/
structure NumberParts (s : Text) where
  /-- The spaces in front. -/
  before : Text
  /-- The sign, if there is one. -/
  sign : Sign
  /-- The digits, if there are any. -/
  digits : Text
  /-- The spaces behind the digits, or where digits are missing. -/
  behind : Text
  /-- What follows. -/
  rest : Text
  /-- The parts are the text. -/
  text_eq : s = before ++ (sign.text ++ (digits ++ (behind ++ rest)))
  before_all : before.All isSpace
  before_stops : (sign.text ++ (digits ++ (behind ++ rest))).Stops isSpace
  /-- A sign is not left to what follows. -/
  sign_stops : sign = .none → (digits ++ (behind ++ rest)).Stops isSign
  digits_all : digits.All isDigit
  digits_stops : (behind ++ rest).Stops isDigit
  behind_all : behind.All isSpace
  behind_stops : rest.Stops isSpace

namespace NumberParts

/-- The sign and the digits. -/
def literal (q : NumberParts s) : Text := q.sign.text ++ q.digits

/-- The integer that the sign and the digits denote, of any size. -/
def value (q : NumberParts s) : Int := q.sign.apply (Nat.ofDigitChars 10 q.digits.chars 0)

/-- Every text can be taken apart. -/
theorem nonempty (s : Text) : Nonempty (NumberParts s) := by
  obtain ⟨g, t, ht, hg⟩ := exists_sign (s.dropWhile isSpace)
  -- behind the sign, the digits; behind them, the spaces
  have hbehind : (t.dropWhile isDigit).takeWhile isSpace ++
      (t.dropWhile isDigit).dropWhile isSpace = t.dropWhile isDigit :=
    Text.takeWhile_append_dropWhile _ _
  have hdigits : t.takeWhile isDigit ++ t.dropWhile isDigit = t :=
    Text.takeWhile_append_dropWhile _ _
  refine ⟨⟨s.takeWhile isSpace, g, t.takeWhile isDigit, (t.dropWhile isDigit).takeWhile isSpace,
    (t.dropWhile isDigit).dropWhile isSpace, ?_, s.all_takeWhile isSpace, ?_, ?_,
    t.all_takeWhile isDigit, ?_, Text.all_takeWhile _ _, Text.stops_dropWhile _ _⟩⟩
  · rw [hbehind, hdigits, ← ht, Text.takeWhile_append_dropWhile]
  · rw [hbehind, hdigits, ← ht]
    exact s.stops_dropWhile isSpace
  · rw [hbehind, hdigits]
    exact hg
  · rw [hbehind]
    exact t.stops_dropWhile isDigit

/-- The numeral of the sign and the digits. -/
def numeral (q : NumberParts s) (h : q.digits ≠ ∅) : Numeral := ⟨q.sign, q.digits, h, q.digits_all⟩

theorem text_eq_numeral (q : NumberParts s) (h : q.digits ≠ ∅) :
    s = q.before ++ ((q.numeral h).text ++ (q.behind ++ q.rest)) := by
  rw [Numeral.text, Text.append_assoc]
  exact q.text_eq

/-- Where digits are missing, a number fails as a digit does. -/
theorem parse_number_of_no_digit (q : NumberParts s) (h : q.digits = ∅) :
    number.parse s =
      .failure (.labelled (unsatisfied "expected a digit" (q.behind ++ q.rest))) := by
  have hspace := q.before_stops
  have hsign := q.sign_stops
  have htext := q.text_eq
  rw [h, Text.empty_append] at hspace hsign htext
  have hfault := NumberFault.noDigit q.before_all hspace hsign q.digits_stops
  rw [← htext] at hfault
  exact hfault.parse_number

/-- A numeral that fits is the number. -/
theorem parse_number_of_fits (q : NumberParts s) (h : q.digits ≠ ∅) (hfits : Fits q.value) :
    number.parse s = .success ⟨.ofInt q.value, q.rest⟩ :=
  parse_number_eq_success.mpr ⟨q.before, q.numeral h, q.behind, q.before_all, q.behind_all,
    q.behind_stops, q.digits_stops, toInt_ofInt_of_fits hfits, q.text_eq_numeral h⟩

/-- A numeral that does not fit is shown in the message. -/
theorem parse_number_of_not_fits (q : NumberParts s) (h : q.digits ≠ ∅) (hnot : ¬ Fits q.value) :
    number.parse s = .failure (.labelled s!"integer literal out of range: {q.literal}") := by
  have hfault := NumberFault.outOfRange (q.numeral h) q.before_all q.digits_stops hnot
  rw [← q.text_eq_numeral h] at hfault
  exact hfault.parse_number

end NumberParts

theorem eq_ofInt_iff {n : Int} (h : Fits n) {v : Int64} : v = .ofInt n ↔ v.toInt = n := by
  rw [← Int64.toInt_inj, toInt_ofInt_of_fits h]

/-- **What a number is parsed from.** Every text can be taken apart into spaces, a sign or
none, digits, spaces and a rest, and from these parts
* the integer `v` is parsed, and `r` left, exactly if there are digits, `v` is the value of
  the numeral of the sign and the digits, and `r` is the rest;
* the failure is that of a digit behind the sign if there are no digits; and if there are
  some, it occurs exactly if the value does not fit in 64 bits, and shows the numeral.
So every integer of 64 bits is parsed back from its decimal form, with any spaces around it,
where what follows does not begin with a space or, directly behind the form, with a digit. -/
theorem parse_number_of_parts :
    (∀ s : Text, Nonempty (NumberParts s) ∧ ∀ q : NumberParts s,
      (∀ v r, number.parse s = .success ⟨v, r⟩ ↔
        q.digits ≠ ∅ ∧ v.toInt = q.value ∧ r = q.rest) ∧
      ∀ e, number.parse s = .failure e ↔
        q.digits = ∅ ∧ digit.parse (q.behind ++ q.rest) = .failure e ∨
        q.digits ≠ ∅ ∧ ¬ Fits q.value ∧
          e = .labelled s!"integer literal out of range: {q.literal}") ∧
    ∀ (v : Int64) (a b r : Text), a.All isSpace → b.All isSpace → r.Stops isSpace →
      (b = ∅ → r.Stops isDigit) →
      number.parse (a ++ (.ofString (toString v) ++ (b ++ r))) = .success ⟨v, r⟩ := by
  refine ⟨fun s => ⟨NumberParts.nonempty s, fun q => ?_⟩, fun v a b r ha hb hr hd => ?_⟩
  · by_cases hdigits : q.digits = ∅
    · rw [q.parse_number_of_no_digit hdigits, parse, run_digit_of_stops q.digits_stops]
      simp [hdigits]
    · by_cases hfits : Fits q.value
      · rw [q.parse_number_of_fits hdigits hfits]
        simp [hdigits, hfits, ← eq_ofInt_iff hfits, eq_comm]
      · have hne (v : Int64) : v.toInt ≠ q.value := fun h => hfits (h ▸ fits_toInt v)
        rw [q.parse_number_of_not_fits hdigits hfits]
        simp [hdigits, hfits, hne, eq_comm]
  · refine parse_number_toString v ha hb hr ?_
    cases b with
    | empty =>
      rw [Text.empty_append]
      exact hd rfl
    | cons c b =>
      have hc : c = ' ' := beq_iff_eq.mp (hb c (List.mem_cons_self ..))
      rw [Text.cons_append, Text.stops_cons, hc]
      rfl

/-- A numeral with zeros in front, and the least integer. -/
theorem parse_number_zeros_and_least :
    number.parse (.ofString " -007 x") = .success ⟨-7, .ofString "x"⟩ ∧
    (Text.ofString "  ").All isSpace ∧ (∅ : Text).All isSpace ∧ (Text.ofString ")").Stops isSpace ∧
    (Text.ofString ")").Stops isDigit ∧
    number.parse (.ofString "  -9223372036854775808)") =
      .success ⟨-9223372036854775808, .ofString ")"⟩ := by
  let q : NumberParts (.ofString " -007 x") :=
    { before := .singleton ' ', sign := .minus, digits := .ofString "007"
      behind := .singleton ' ', rest := .ofString "x"
      text_eq := by decide, before_all := by decide, before_stops := by decide
      sign_stops := by decide, digits_all := by decide, digits_stops := by decide
      behind_all := by decide, behind_stops := by decide }
  have hzeros := (((parse_number_of_parts.1 _).2 q).1 (-7) (.ofString "x")).mpr
    ⟨by decide, by decide, rfl⟩
  have hspaces : (Text.ofString "  ").All isSpace := by decide
  have hnone : (∅ : Text).All isSpace := by decide
  have hspace : (Text.ofString ")").Stops isSpace := by decide
  have hdigit : (Text.ofString ")").Stops isDigit := by decide
  have htext : .ofString "  -9223372036854775808)" = .ofString "  " ++
      (.ofString (toString (-9223372036854775808 : Int64)) ++ (∅ ++ Text.ofString ")")) := rfl
  refine ⟨hzeros, hspaces, hnone, hspace, hdigit, ?_⟩
  rw [htext]
  exact parse_number_of_parts.2 _ _ _ _ hspaces hnone hspace fun _ => hdigit

end Arith

end Descent
