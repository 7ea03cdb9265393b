import Descent.Proofs.Scan
import Descent.Proofs.Inversion

/-!
# Numerals, read and written

A numeral is written as a sign or none and digits (`Numeral`). `run_numeral` says what
`numeral` does behind a sign, whatever follows; `parse_trimmed_numeral_eq_success` and
`parse_number_eq_success` say which texts begin with a numeral between spaces: the ones
that are spaces, a numeral, spaces and a remainder with which neither the numeral nor the
spaces could have gone on.
-/

namespace Descent

namespace Arith

open Descent.Parser

/-! ### Signs -/

/-- What may stand in front of the digits. -/
inductive Sign where
  /-- No sign. -/
  | none
  /-- The sign `+`. -/
  | plus
  /-- The sign `-`. -/
  | minus
  deriving DecidableEq

/-- The sign as it is written. -/
def Sign.text : Sign → Text
  | none => ∅
  | plus => .singleton '+'
  | minus => .singleton '-'

theorem Sign.text_none_append (s : Text) : Sign.none.text ++ s = s := Text.empty_append s

theorem Sign.text_plus_append (s : Text) : Sign.plus.text ++ s = .cons '+' s := Text.ext rfl

theorem Sign.text_minus_append (s : Text) : Sign.minus.text ++ s = .cons '-' s := Text.ext rfl

/-- The integer with that sign. -/
def Sign.apply : Sign → Int → Int
  | none, n => n
  | plus, n => n
  | minus, n => -n

/-- Whether a character is a sign. -/
def isSign (c : Char) : Bool := c == '-' || c == '+'

/-- A test that one character passes and another does not tells them apart. -/
theorem beq_eq_false_of_test {q : Char → Bool} {c d : Char} (hc : q c = true) (hd : q d = false) :
    (c == d) = false := by
  rw [beq_eq_false_iff_ne]
  rintro rfl
  rw [hc] at hd
  cases hd

theorem isSign_of_isDigit {c : Char} (h : isDigit c = true) : isSign c = false := by
  rw [isSign, Bool.or_eq_false_iff]
  exact ⟨beq_eq_false_of_test h rfl, beq_eq_false_of_test h rfl⟩

theorem isSpace_of_isDigit {c : Char} (h : isDigit c = true) : isSpace c = false :=
  beq_eq_false_of_test h rfl

/-- Every text is a sign or none, and a text that is not taken for a signed one. -/
theorem exists_sign (s : Text) :
    ∃ (g : Sign) (t : Text), s = g.text ++ t ∧ (g = .none → t.Stops isSign) := by
  cases s with
  | empty => exact ⟨.none, ∅, rfl, fun _ => Text.stops_empty⟩
  | cons c s =>
    by_cases hminus : c = '-'
    · exact ⟨.minus, s, by rw [hminus, Sign.text_minus_append], fun h => absurd h (by decide)⟩
    by_cases hplus : c = '+'
    · exact ⟨.plus, s, by rw [hplus, Sign.text_plus_append], fun h => absurd h (by decide)⟩
    refine ⟨.none, .cons c s, (Sign.text_none_append _).symm, fun _ => Text.stops_cons.mpr ?_⟩
    rw [isSign, Bool.or_eq_false_iff, beq_eq_false_iff_ne, beq_eq_false_iff_ne]
    exact ⟨hminus, hplus⟩

/-- The sign is taken if there is one. -/
theorem run_optional_sign (g : Sign) {s : Text} (h : g = .none → s.Stops isSign) :
    ∃ found, (optional sign).run (g.text ++ s) = .of (.success ⟨found, s⟩) := by
  cases g with
  | plus =>
    refine ⟨some '+', ?_⟩
    rw [Sign.text_plus_append]
    simp [sign, Parser.char, Success.map]
  | minus =>
    refine ⟨some '-', ?_⟩
    rw [Sign.text_minus_append]
    simp [sign, Parser.char, Success.map]
  | none =>
    refine ⟨.none, ?_⟩
    rw [Sign.text_none_append]
    cases s with
    | empty => rfl
    | cons c s =>
      have hc : isSign c = false := Text.stops_cons.mp (h rfl)
      rw [isSign, Bool.or_eq_false_iff] at hc
      simp [sign, Parser.char, hc.1, hc.2, ParseError.noneMatched]

/-! ### Numerals -/

/-- A numeral: a sign or none in front of digits. -/
structure Numeral where
  /-- The sign. -/
  sign : Sign
  /-- The digits. -/
  digits : Text
  /-- There is a digit. -/
  digits_ne : digits ≠ ∅
  /-- The digits are digits. -/
  digits_all : digits.All isDigit

namespace Numeral

/-- The numeral as it is written. -/
def text (m : Numeral) : Text := m.sign.text ++ m.digits

/-- The integer the numeral denotes, of any size. -/
def value (m : Numeral) : Int := m.sign.apply (Nat.ofDigitChars 10 m.digits.chars 0)

/-- The digits begin with one. -/
theorem digits_eq_cons (m : Numeral) :
    ∃ c s, m.digits = .cons c s ∧ isDigit c = true := by
  have hne := m.digits_ne
  have hall := m.digits_all
  cases h : m.digits with
  | empty => exact absurd h hne
  | cons c s =>
    rw [h] at hall
    exact ⟨c, s, rfl, hall c (List.mem_cons_self ..)⟩

theorem stops_digits {q : Char → Bool} (m : Numeral) (hq : ∀ c, isDigit c = true → q c = false)
    (s : Text) : (m.digits ++ s).Stops q := by
  obtain ⟨c, t, h, hc⟩ := m.digits_eq_cons
  rw [h, Text.cons_append, Text.stops_cons]
  exact hq c hc

/-- A numeral stops every test that neither signs nor digits pass. -/
theorem stops_text {q : Char → Bool} (m : Numeral) (hplus : q '+' = false) (hminus : q '-' = false)
    (hq : ∀ c, isDigit c = true → q c = false) (s : Text) : (m.text ++ s).Stops q := by
  rw [text, Text.append_assoc]
  cases m.sign with
  | none => exact m.stops_digits hq s
  | plus => exact Text.stops_cons.mpr hplus
  | minus => exact Text.stops_cons.mpr hminus

/-- A numeral is written without a space in front. -/
theorem stops_isSpace (m : Numeral) (s : Text) : (m.text ++ s).Stops isSpace :=
  m.stops_text rfl rfl (fun _ => isSpace_of_isDigit) s

/-- The value read off the text is the numeral's. -/
theorem numeralValue_text (m : Numeral) : numeralValue m.text = m.value := by
  obtain ⟨c, t, h, hc⟩ := m.digits_eq_cons
  have hsign := isSign_of_isDigit hc
  rw [isSign, Bool.or_eq_false_iff, beq_eq_false_iff_ne, beq_eq_false_iff_ne] at hsign
  rw [numeralValue, text, value]
  cases m.sign with
  | plus => rfl
  | minus => rfl
  | none =>
    rw [Sign.text_none_append, h, Text.chars_cons]
    split
    · next heq => exact absurd (List.cons.inj heq).1 hsign.1
    · next heq => exact absurd (List.cons.inj heq).1 hsign.2
    · rfl

/-! #### In decimal -/

/-- The numeral of a sign and the decimal digits of a number. -/
def decimal (g : Sign) (n : Nat) : Numeral where
  sign := g
  digits := .ofList (Nat.toDigits 10 n)
  digits_ne h := Nat.toDigits_ne_nil (congrArg Text.chars h)
  digits_all _ hc := Nat.isDigit_of_mem_toDigits (by decide) (by decide) hc

/-- The numeral that an integer is written as: with a minus if it is negative, and without
a sign otherwise. -/
def ofInt : Int → Numeral
  | .ofNat n => decimal .none n
  | .negSucc n => decimal .minus (n + 1)

theorem value_ofInt (n : Int) : (ofInt n).value = n := by
  cases n with
  | ofNat n =>
    rw [ofInt, value, decimal, Text.chars_ofList, Nat.ofDigitChars_ten_toDigits]
    rfl
  | negSucc n =>
    rw [ofInt, value, decimal, Text.chars_ofList, Nat.ofDigitChars_ten_toDigits]
    rfl

theorem text_ofInt (n : Int) : (ofInt n).text = .ofString (toString n) := by
  apply Text.ext
  cases n with
  | ofNat n =>
    have hdigits : toString (Int.ofNat n) = String.ofList (Nat.toDigits 10 n) :=
      Nat.toString_eq_ofList_toDigits
    rw [hdigits, ofInt, text, decimal, Sign.text_none_append, Text.ofString,
      String.toList_ofList]
  | negSucc n =>
    have hdigits : toString (Int.negSucc n) = "-" ++ String.ofList (Nat.toDigits 10 (n + 1)) :=
      congrArg ("-" ++ ·) Nat.toString_eq_ofList_toDigits
    rw [hdigits, ofInt, text, decimal, Sign.text_minus_append, Text.ofString,
      String.toList_append, String.toList_ofList (l := Nat.toDigits 10 (n + 1))]
    rfl

end Numeral

/-! ### Parsing a numeral -/

/-- Behind a sign or none `numeral` takes the longest run of digits. Where there is no
digit it fails as `digit` does, behind the sign. -/
theorem run_numeral (g : Sign) {s : Text} (h : g = .none → s.Stops isSign) :
    numeral.run (g.text ++ s) =
      if s.takeWhile isDigit = ∅ then (digit.run s).map Text.singleton
      else .of (.success ⟨g.text ++ s.takeWhile isDigit, s.dropWhile isDigit⟩) := by
  obtain ⟨found, hsign⟩ := run_optional_sign g h
  rw [numeral, run_map, run_consumed, run_lift2, hsign, Run.success_andThen, run_digits]
  split
  · next hempty =>
    rw [run_digit_of_stops (Text.takeWhile_eq_empty.mp hempty)]
    rfl
  · next hne =>
    have hcut : g.text ++ s = (g.text ++ s.takeWhile isDigit) ++ s.dropWhile isDigit := by
      rw [Text.append_assoc, Text.takeWhile_append_dropWhile]
    rw [Run.map_of, Outcome.map_success, Run.success_andThen]
    dsimp only [Success.map]
    rw [hcut, Text.segment?_append]
    rfl

/-- A numeral is parsed off a text that begins with it, and whose remainder does not go
on with a digit. -/
theorem parse_numeral_eq_success {s w r : Text} :
    numeral.parse s = .success ⟨w, r⟩ ↔
      ∃ m : Numeral, w = m.text ∧ s = m.text ++ r ∧ r.Stops isDigit := by
  constructor
  · intro h
    obtain ⟨g, t, rfl, hg⟩ := exists_sign s
    rw [parse, run_numeral g hg] at h
    split at h
    · next hempty =>
      rw [run_digit_of_stops (Text.takeWhile_eq_empty.mp hempty)] at h
      cases h
    · next hne =>
      cases h
      refine ⟨⟨g, t.takeWhile isDigit, hne, t.all_takeWhile isDigit⟩, rfl, ?_,
        t.stops_dropWhile isDigit⟩
      rw [Numeral.text, Text.append_assoc, Text.takeWhile_append_dropWhile]
  · rintro ⟨m, rfl, rfl, hr⟩
    rw [parse, Numeral.text, Text.append_assoc,
      run_numeral m.sign fun _ => m.stops_digits (fun _ => isSign_of_isDigit) r,
      Text.takeWhile_append_of_stops m.digits_all hr,
      Text.dropWhile_append_of_stops m.digits_all hr, if_neg m.digits_ne]
    rfl

/-- The text of a numeral is parsed off a text that begins with it, between spaces. -/
theorem parse_trimmed_numeral_eq_success {s w r : Text} :
    (trimmed numeral).parse s = .success ⟨w, r⟩ ↔
      ∃ (a : Text) (m : Numeral) (b : Text), a.All isSpace ∧ b.All isSpace ∧ r.Stops isSpace ∧
        (b ++ r).Stops isDigit ∧ w = m.text ∧ s = a ++ (m.text ++ (b ++ r)) := by
  rw [parse_trimmed_eq_success]
  constructor
  · rintro ⟨a, t, b, ha, -, hb, hr, rfl, h⟩
    obtain ⟨m, rfl, rfl, hd⟩ := parse_numeral_eq_success.mp h
    exact ⟨a, m, b, ha, hb, hr, hd, rfl, rfl⟩
  · rintro ⟨a, m, b, ha, hb, hr, hd, rfl, rfl⟩
    exact ⟨a, _, b, ha, m.stops_isSpace _, hb, hr, rfl,
      parse_numeral_eq_success.mpr ⟨m, rfl, rfl, hd⟩⟩

/-- The value of the text of a numeral, if it fits in 64 bits. -/
theorem parse_ofNumeral_eq_success {w s r : Text} {v : Int64} :
    (ofNumeral w).parse s = .success ⟨v, r⟩ ↔ v.toInt = numeralValue w ∧ r = s := by
  rw [← narrow?_eq_some, ofNumeral]
  cases narrow? (numeralValue w) with
  | none =>
    constructor
    · rintro ⟨⟩
    · rintro ⟨⟨⟩, -⟩
  | some value =>
    constructor
    · rintro ⟨⟩
      exact ⟨rfl, rfl⟩
    · rintro ⟨⟨⟩, rfl⟩
      rfl

/-- A number is parsed off a text that begins with a numeral between spaces, if its value
fits in 64 bits. -/
theorem parse_number_eq_success {s r : Text} {v : Int64} :
    number.parse s = .success ⟨v, r⟩ ↔
      ∃ (a : Text) (m : Numeral) (b : Text), a.All isSpace ∧ b.All isSpace ∧ r.Stops isSpace ∧
        (b ++ r).Stops isDigit ∧ v.toInt = m.value ∧ s = a ++ (m.text ++ (b ++ r)) := by
  rw [number, bind_def, parse_bind_eq_success]
  constructor
  · rintro ⟨⟨w, t⟩, hw, hv⟩
    obtain ⟨hvalue, rfl⟩ := parse_ofNumeral_eq_success.mp hv
    obtain ⟨a, m, b, ha, hb, hr, hd, rfl, hs⟩ := parse_trimmed_numeral_eq_success.mp hw
    exact ⟨a, m, b, ha, hb, hr, hd, hvalue.trans m.numeralValue_text, hs⟩
  · rintro ⟨a, m, b, ha, hb, hr, hd, hvalue, hs⟩
    exact ⟨⟨m.text, r⟩, parse_trimmed_numeral_eq_success.mpr ⟨a, m, b, ha, hb, hr, hd, rfl, hs⟩,
      parse_ofNumeral_eq_success.mpr ⟨hvalue.trans m.numeralValue_text.symm, rfl⟩⟩

/-- An integer of 64 bits is written as a numeral. -/
theorem toString_eq_text (v : Int64) :
    .ofString (toString v) = (Numeral.ofInt v.toInt).text :=
  (Numeral.text_ofInt v.toInt).symm

/-- A number that is written in decimal, with spaces or none around it, is parsed back. -/
theorem parse_number_toString (v : Int64) {a b r : Text} (ha : a.All isSpace) (hb : b.All isSpace)
    (hr : r.Stops isSpace) (hd : (b ++ r).Stops isDigit) :
    number.parse (a ++ (.ofString (toString v) ++ (b ++ r))) = .success ⟨v, r⟩ := by
  rw [toString_eq_text]
  exact parse_number_eq_success.mpr
    ⟨a, Numeral.ofInt v.toInt, b, ha, hb, hr, hd, (Numeral.value_ofInt v.toInt).symm, rfl⟩

end Arith

end Descent
